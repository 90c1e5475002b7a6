import LabBench.Proofs.Frame
import LabBench.Proofs.Text.Parts
import LabBench.Wire.Session
/-!
# Sections of messages

Between its start and its stop, a section gathers messages; the stop sends them as one message and
takes their answers apart. Here this is followed over any sequence of calls, on a session whose bus
does not fail and whose instrument has an answer to every question.

A section that has gathered nothing is special: its stop does not end it. The messages that follow are
gathered, too, until there is another stop.

## Main results

* `converse_sections`
-/

namespace LabBench

open Act List

/-! ### Answers that are taken apart -/

namespace Text

theorem splitAtMost_append {sep : Char} {part : List Char} (hpart : sep ∉ part) (limit : Nat) (cs : List Char) :
    splitAtMost sep (limit + 1) (part ++ sep :: cs) = part :: splitAtMost sep limit cs := by
  have hall : ∀ c ∈ part, (c != sep) = true := by
    intro c hc
    rw [bne_iff_ne]
    rintro rfl
    exact hpart hc
  rw [splitAtMost, dropWhile_append_of_pos hall, takeWhile_append_of_pos hall]
  simp

/-- Parts that were joined are found again, if only the last one contains the separating character. -/
theorem splitAtMost_intercalate {sep : Char} {parts : List (List Char)} (hne : parts ≠ [])
    (hparts : ∀ part ∈ parts.dropLast, sep ∉ part) :
    splitAtMost sep (parts.length - 1) ([sep].intercalate parts) = parts := by
  induction parts with
  | nil => exact absurd rfl hne
  | cons part rest ih =>
    cases rest with
    | nil => simp [splitAtMost]
    | cons next rest =>
      rw [dropLast_cons_cons, forall_mem_cons] at hparts
      rw [intercalate_cons_cons, append_assoc, singleton_append, length_cons,
        Nat.add_sub_cancel, length_cons, splitAtMost_append hparts.1]
      exact congrArg (part :: ·) (ih (cons_ne_nil _ _) hparts.2)

theorem splitAtMost_texts {texts : List String} (hne : texts ≠ [])
    (htexts : ∀ text ∈ texts.dropLast, ';' ∉ text.toList) :
    (splitAtMost ';' (texts.length - 1) (";".intercalate texts).toList).map String.ofList = texts := by
  have hparts : ∀ part ∈ (texts.map String.toList).dropLast, ';' ∉ part := by
    rw [← map_dropLast, forall_mem_map]
    exact htexts
  have hspl := splitAtMost_intercalate (mt map_eq_nil_iff.mp hne) hparts
  rw [length_map] at hspl
  rw [String.toList_intercalate]
  change (splitAtMost ';' (texts.length - 1) ([';'].intercalate _)).map String.ofList = texts
  rw [hspl, map_map]
  exact map_id'' (fun _ => String.ofList_toList) texts

end Text

namespace Session

/-! ### Calls -/

inductive Call where
  | start
  | write (message : String)
  | ask (message : String)
  | stop
  deriving Repr, DecidableEq

/-- A call is made; the texts that it gives back are the answers that have come. -/
def Call.perform : Call → Act Session (List String)
  | start => do
    startSection
    return []
  | write message => do
    Session.write message
    return []
  | ask message => do
    return (← Session.ask message).toList
  | stop => stopSection

def Call.isSpoken : Call → Bool
  | write message | ask message => !message.toList.isEmpty
  | start | stop => true

/-- Calls are made one after the other, also after a fault. -/
def converse (calls : List Call) (s : Session) : Session :=
  calls.foldl (fun s call => (call.perform s).2) s

/-! ### What calls should do -/

/-- The messages of a section, and which of them are queries. -/
abbrev Gathering := List (String × Bool)

/-- What the section has gathered after one more call, if one is open. A stop does not end a section
that has gathered nothing. -/
def gather (o : Option Gathering) : Call → Option Gathering
  | .start => some []
  | .write message => o.map (· ++ [(message, false)])
  | .ask message => o.map (· ++ [(message, true)])
  | .stop => o.filter (·.isEmpty)

/-- What the open section has gathered after some calls. -/
def gathered (calls : List Call) : Option Gathering :=
  calls.foldl gather none

/-- A message within a section: all but common commands start with a colon. -/
def asPart (message : String) : String :=
  if message.toList.head? = some '*' then message else ":" ++ message

def joined (g : Gathering) : String :=
  ";".intercalate (g.map fun m => asPart m.1)

/-- What a call sends at once: a message outside of a section, and a section that has gathered
something when it is stopped. -/
def sends (o : Option Gathering) : Call → List String
  | .start => []
  | .write message | .ask message => if o.isNone then [message] else []
  | .stop => (o.filter (!·.isEmpty)).toList.map joined

def queries (g : Gathering) : Nat :=
  g.countP (·.2)

/-- How many answers a call waits for at once: those of a section come as one. -/
def listens (o : Option Gathering) : Call → Nat
  | .start | .write _ => 0
  | .ask _ => if o.isNone then 1 else 0
  | .stop => min 1 ((o.map queries).getD 0)

def listensAll : Option Gathering → List Call → Nat
  | _, [] => 0
  | o, call :: rest => listens o call + listensAll (gather o call) rest

/-! ### Sessions without failures -/

/-- An open session on a bus with sections, whose instrument does nothing but answer. -/
structure Attended (s : Session) : Prop where
  bus : s.bus ≠ .usb
  isOpen : s.isOpen = true
  terminator : s.terminator = ""
  answers : ∀ happening ∈ s.script.happenings, ∃ text, happening = .answer text

/-- A session that has gathered what it should have. -/
structure Follows (o : Option Gathering) (s : Session) : Prop extends Attended s where
  collected : s.collected = o.map fun g => g.map (·.1)
  expected : ∀ g, o = some g → s.expected = queries g
  spoken : ∀ g, o = some g → ∀ m ∈ g, m.1.toList ≠ []

def noted (d : Deed) (s : Session) : Session :=
  { s with script := { s.script with deeds := s.script.deeds ++ [d] } }

def past (s : Session) : Session :=
  { s with script := { s.script with happenings := s.script.happenings.tail } }

variable {s : Session} {rest : List Happening} {messages : List String} {m : String × Bool} {g : Gathering}
  {message : String}

section

variable (hs : s.Attended)

include hs

theorem Attended.checkOpen : checkOpen s = (.ok ⟨⟩, s) := by
  rw [Session.checkOpen, get_bind, hs.isOpen]
  rfl

theorem Attended.transmit (message : String) : transmit message s = (.ok ⟨⟩, s.noted (.wrote message)) := by
  rw [Session.transmit, bind_of_ok hs.checkOpen, get_bind]
  cases hhaps : s.script.happenings with
  | nil => rfl
  | cons happening rest =>
    obtain ⟨text, rfl⟩ := hs.answers happening (hhaps ▸ mem_cons_self)
    rfl

theorem Attended.readRaw {text : String}
    (hnext : s.script.happenings = .answer text :: rest) : readRaw s = (.ok text, s.past) := by
  rw [Session.readRaw, bind_of_ok hs.checkOpen, get_bind, hnext]
  rfl

theorem Attended.append_terminator (message : String) : message ++ s.terminator = message := by
  rw [hs.terminator, String.append_empty]

theorem Attended.write_of_none (hnone : s.collected = none) (message : String) :
    write message s = (.ok ⟨⟩, s.noted (.wrote message)) := by
  rw [Session.write, get_bind, get_bind, hs.append_terminator, hnone]
  exact hs.transmit message

theorem Attended.write_of_some (hsome : s.collected = some messages) (message : String) :
    write message s = (.ok ⟨⟩, { s with collected := some (messages ++ [message]) }) := by
  rw [Session.write, get_bind, get_bind, hs.append_terminator, hsome]
  rfl

theorem Attended.noted (d : Deed) : (s.noted d).Attended :=
  ⟨hs.bus, hs.isOpen, hs.terminator, hs.answers⟩

theorem Attended.gathering (collected : Option (List String)) (expected : Nat) :
    { s with collected, expected }.Attended :=
  ⟨hs.bus, hs.isOpen, hs.terminator, hs.answers⟩

theorem Attended.past : s.past.Attended :=
  ⟨hs.bus, hs.isOpen, hs.terminator, fun h hh => hs.answers h (mem_of_mem_tail hh)⟩

/-- A query outside of a section is sent and its answer is read, without the blanks at its end. -/
theorem Attended.ask_of_none (hnone : s.collected = none) {text : String}
    (hnext : s.script.happenings = .answer text :: rest) (message : String) :
    ask message s = (.ok (some (String.ofList (Text.trimRight Text.isBlank text.toList))),
      (s.noted (.wrote message)).past) := by
  have hstill : (s.noted (.wrote message)).collected = none := hnone
  rw [Session.ask, bind_of_ok (hs.write_of_none hnone message), get_bind, hstill]
  change (Session.readRaw >>= _) _ = _
  rw [bind_of_ok ((hs.noted _).readRaw hnext)]
  rfl

theorem Attended.ask_of_some (hsome : s.collected = some messages) (message : String) : ask message s = (.ok none,
      { s with collected := some (messages ++ [message]), expected := s.expected + 1 }) := by
  rw [Session.ask, bind_of_ok (hs.write_of_some hsome message)]
  rfl

end

theorem sectionPart_eq (h : message.toList ≠ []) : sectionPart message = .ok (asPart message) := by
  rw [sectionPart, asPart]
  cases hchars : message.toList with
  | nil => exact absurd hchars h
  | cons c rest => simp

theorem mapM_sectionPart (h : ∀ m ∈ g, m.1.toList ≠ []) :
    (g.map (·.1)).mapM sectionPart = .ok (g.map fun m => asPart m.1) := by
  rw [mapM_map]
  exact Outcome.mapM_eq_ok fun m hm => sectionPart_eq (h m hm)

/-- A section that has gathered something, when it has been sent: nothing is gathered any more. -/
def ended (g : Gathering) (s : Session) : Session :=
  { s with collected := none }.noted (.wrote (joined g))

section

variable (hs : Follows (some (m :: g)) s)

include hs

theorem Follows.ended : Follows none (s.ended (m :: g)) :=
  ⟨(hs.gathering none s.expected).noted _, rfl, nofun, nofun⟩

theorem Follows.stopSection_eq : stopSection s = sendSection ((m :: g).map (·.1)) s := by
  rw [stopSection, get_bind, hs.collected]
  rfl

theorem Follows.stopSection_of_silent (hsilent : queries (m :: g) = 0) :
    stopSection s = (.ok [], s.ended (m :: g)) := by
  have hattended := hs.gathering none s.expected
  have hexpect : s.expected = 0 := (hs.expected _ rfl).trans hsilent
  rw [hs.stopSection_eq, sendSection, mapM_sectionPart (hs.spoken _ rfl)]
  change (ite ((s.expected == 0) = true) _ _ : Act Session (List String)) { s with collected := none } = _
  rw [if_pos (by simp [hexpect]), bind_of_ok (hattended.write_of_none rfl _)]
  rfl

theorem Follows.stopSection_of_queries {k : Nat} (hqrys : queries (m :: g) = k + 1) {text : String}
    (hnext : s.script.happenings = .answer text :: rest) :
    stopSection s = (.ok ((Text.splitAtMost ';' k (Text.trimRight Text.isBlank text.toList)).map String.ofList),
        (s.ended (m :: g)).past) := by
  have hattended := hs.gathering none s.expected
  have hexpect : s.expected = k + 1 := (hs.expected _ rfl).trans hqrys
  rw [hs.stopSection_eq, sendSection, mapM_sectionPart (hs.spoken _ rfl)]
  change (ite ((s.expected == 0) = true) _ _ : Act Session (List String)) { s with collected := none } = _
  rw [if_neg (by simp [hexpect]), bind_of_ok (hattended.ask_of_none rfl hnext _)]
  change (Except.ok (map _ (Text.splitAtMost ';' (s.expected - 1) _)), _) = _
  rw [show s.expected - 1 = k by omega, String.toList_ofList]
  rfl

end

/-! ### Steps and runs -/

/-- What one call does: the section gathers, messages are sent at once, and answers are used up. -/
structure Advances (o : Option Gathering) (call : Call) (s s' : Session) : Prop where
  follows : Follows (gather o call) s'
  deeds : s'.script.deeds = s.script.deeds ++ (sends o call).map .wrote
  happenings : s'.script.happenings = s.script.happenings.drop (listens o call)

variable {o : Option Gathering}

theorem Follows.perform_start (hs : Follows o s) : Advances o .start s (Call.start.perform s).2 := by
  have hstart : startSection s = (.ok ⟨⟩, { s with collected := some [], expected := 0 }) := by
    rw [startSection, get_bind, if_neg (by simpa using hs.bus)]
    rfl
  have hstate : (Call.start.perform s).2 = { s with collected := some [], expected := 0 } := by
    rw [Call.perform, bind_of_ok hstart]
    rfl
  rw [hstate]
  refine ⟨⟨hs.gathering _ _, rfl, ?_, ?_⟩, ?_, rfl⟩
  · rintro g ⟨⟩
    rfl
  · rintro g ⟨⟩ m hm
    cases hm
  · exact (append_nil _).symm

theorem Follows.append (hs : Follows (some g) s)
    (hmsg : message.toList ≠ []) (isQuery : Bool) : Follows (some (g ++ [(message, isQuery)])) { s with
      collected := some (g.map (·.1) ++ [message])
      expected := s.expected + if isQuery then 1 else 0 } := by
  refine ⟨hs.gathering _ _, ?_, ?_, ?_⟩
  · simp
  · rintro _ ⟨⟩
    simp [queries, hs.expected g rfl, countP_append, countP_singleton]
  · rintro _ ⟨⟩ m hm
    rcases mem_append.mp hm with hm | hm
    · exact hs.spoken g rfl m hm
    · rw [mem_singleton.mp hm]
      exact hmsg

theorem Follows.perform_write (hs : Follows o s) (hmsg : message.toList ≠ []) :
    Advances o (.write message) s (Call.perform (.write message) s).2 := by
  cases o with
  | none =>
    have hstate : (Call.perform (.write message) s).2 = s.noted (.wrote message) := by
      rw [Call.perform, bind_of_ok (hs.write_of_none hs.collected message)]
      rfl
    rw [hstate]
    exact ⟨⟨hs.toAttended.noted _, hs.collected, nofun, nofun⟩, rfl, rfl⟩
  | some g =>
    have hstate : (Call.perform (.write message) s).2 = { s with collected := some (g.map (·.1) ++ [message]) } := by
      rw [Call.perform, bind_of_ok (hs.write_of_some hs.collected message)]
      rfl
    rw [hstate]
    exact ⟨hs.append hmsg false, (append_nil _).symm, rfl⟩

theorem Follows.perform_ask (hs : Follows o s) (hmsg : message.toList ≠ [])
    (henough : listens o (.ask message) ≤ s.script.happenings.length) :
    Advances o (.ask message) s (Call.perform (.ask message) s).2 := by
  cases o with
  | none =>
    obtain ⟨happening, rest, hhaps⟩ := exists_cons_of_length_pos henough
    obtain ⟨text, rfl⟩ := hs.answers happening (hhaps ▸ mem_cons_self)
    have hstate : (Call.perform (.ask message) s).2 = (s.noted (.wrote message)).past := by
      rw [Call.perform, bind_of_ok (hs.ask_of_none hs.collected hhaps message)]
      rfl
    rw [hstate]
    exact ⟨⟨(hs.toAttended.noted _).past, hs.collected, nofun, nofun⟩, rfl, (drop_one).symm⟩
  | some g =>
    have hstate : (Call.perform (.ask message) s).2 =
        { s with collected := some (g.map (·.1) ++ [message]), expected := s.expected + 1 } := by
      rw [Call.perform, bind_of_ok (hs.ask_of_some hs.collected message)]
      rfl
    rw [hstate]
    exact ⟨hs.append hmsg true, (append_nil _).symm, rfl⟩

theorem Follows.perform_stop (hs : Follows o s) (henough : listens o .stop ≤ s.script.happenings.length) :
    Advances o .stop s (Call.stop.perform s).2 := by
  match o, hs with
  | none, hs | some [], hs =>
    have hstate : (Call.stop.perform s).2 = s := by
      rw [Call.perform, stopSection, get_bind, hs.collected]
      rfl
    rw [hstate]
    exact ⟨hs, (append_nil _).symm, rfl⟩
  | some (m :: g), hs =>
    cases hqrys : queries (m :: g) with
    | zero =>
      have hzero : listens (some (m :: g)) .stop = 0 := by simp [listens, hqrys]
      rw [Call.perform, hs.stopSection_of_silent hqrys]
      refine ⟨hs.ended, rfl, ?_⟩
      rw [hzero]
      rfl
    | succ k =>
      have hone : listens (some (m :: g)) .stop = 1 := by simp [listens, hqrys]
      obtain ⟨happening, rest, hhaps⟩ :=
        exists_cons_of_length_pos (Nat.lt_of_lt_of_le Nat.zero_lt_one (hone ▸ henough))
      obtain ⟨text, rfl⟩ := hs.answers happening (hhaps ▸ mem_cons_self)
      rw [Call.perform, hs.stopSection_of_queries hqrys hhaps]
      refine ⟨⟨hs.ended.toAttended.past, rfl, nofun, nofun⟩, rfl, ?_⟩
      rw [hone]
      exact drop_one.symm

theorem Follows.perform (hs : Follows o s) {call : Call} (hspoken : call.isSpoken = true)
    (henough : listens o call ≤ s.script.happenings.length) : Advances o call s (call.perform s).2 := by
  cases call with
  | start => exact hs.perform_start
  | write message => exact hs.perform_write (by simpa [Call.isSpoken] using hspoken)
  | ask message => exact hs.perform_ask (by simpa [Call.isSpoken] using hspoken) henough
  | stop => exact hs.perform_stop henough

/-- Calls lead a session where they should, and use up the answers that they wait for. -/
theorem Follows.converse {calls : List Call} (hs : Follows o s) (hspoken : ∀ call ∈ calls, call.isSpoken = true)
    (henough : listensAll o calls ≤ s.script.happenings.length) : Follows (calls.foldl gather o) (converse calls s) ∧
      (converse calls s).script.happenings = s.script.happenings.drop (listensAll o calls) := by
  induction calls generalizing o s with
  | nil => exact ⟨hs, rfl⟩
  | cons call rest ih =>
    rw [forall_mem_cons] at hspoken
    rw [listensAll] at henough
    have hstep := hs.perform hspoken.1 (by omega)
    have hleft : listensAll (gather o call) rest ≤ (call.perform s).2.script.happenings.length := by
      rw [hstep.happenings, length_drop]
      omega
    obtain ⟨hfollows, hhaps⟩ := ih hstep.follows hspoken.2 hleft
    refine ⟨hfollows, ?_⟩
    rw [listensAll, ← drop_drop, ← hstep.happenings]
    exact hhaps

/-- The answers to the queries of a section, if only the last one contains a semicolon and if there is
no blank at its end. -/
theorem Follows.answers_of_stop (hs : Follows (some g) s) {texts : List String}
    (hlen : texts.length = queries g) (hne : texts ≠ []) (hplain : ∀ text ∈ texts.dropLast, ';' ∉ text.toList)
    (hlast : ∀ c, (";".intercalate texts).toList.getLast? = some c → Text.isBlank c = false)
    (hnext : s.script.happenings = .answer (";".intercalate texts) :: rest) :
    (Call.stop.perform s).1 = .ok texts := by
  obtain ⟨text, others, rfl⟩ := exists_cons_of_ne_nil hne
  cases g with
  | nil => cases hlen
  | cons m g =>
    rw [Call.perform, hs.stopSection_of_queries hlen.symm hnext, Text.trimRight_of_last hlast]
    exact congrArg Except.ok (Text.splitAtMost_texts hne hplain)

theorem listensAll_append (o : Option Gathering) (calls : List Call) (call : Call) :
    listensAll o (calls ++ [call]) = listensAll o calls + listens (calls.foldl gather o) call := by
  induction calls generalizing o with
  | nil => simp [listensAll]
  | cons first rest ih =>
    rw [cons_append, listensAll, listensAll, ih, foldl_cons, Nat.add_assoc]

theorem converse_append (calls : List Call) (call : Call) (s : Session) :
    converse (calls ++ [call]) s = (call.perform (converse calls s)).2 := by
  rw [converse, foldl_append]
  rfl

/-- Messages outside of sections are sent at once, those within a section are gathered, and a stop sends them in order
as one message and gives back the answers. After the stop nothing is gathered any more, unless nothing had been
gathered before it: then the section goes on. -/
theorem converse_sections (hs : s.Attended) (hidle : s.collected = none) (calls : List Call)
    (call : Call) (hspoken : ∀ c ∈ calls ++ [call], c.isSpoken = true)
    (henough : listensAll none (calls ++ [call]) ≤ s.script.happenings.length) :
    (converse (calls ++ [call]) s).script.deeds =
        (converse calls s).script.deeds ++ (sends (gathered calls) call).map .wrote ∧
      (converse calls s).collected = (gathered calls).map (fun g => g.map (·.1)) ∧
      (call = .stop → ((converse (calls ++ [call]) s).collected = none ↔ gathered calls ≠ some [])) ∧
      ∀ g texts rest, gathered calls = some g → texts.length = queries g → texts ≠ [] →
        (∀ text ∈ texts.dropLast, ';' ∉ text.toList) →
        (∀ c, (";".intercalate texts).toList.getLast? = some c → Text.isBlank c = false) →
        (converse calls s).script.happenings = .answer (";".intercalate texts) :: rest →
        (Call.stop.perform (converse calls s)).1 = .ok texts := by
  have hfollows : Follows none s := ⟨hs, hidle, nofun, nofun⟩
  rw [forall_mem_append, forall_mem_singleton] at hspoken
  rw [listensAll_append] at henough
  obtain ⟨hafter, hhappenings⟩ := hfollows.converse hspoken.1 (by omega)
  have hstep := hafter.perform hspoken.2 (by rw [hhappenings, length_drop]; omega)
  rw [converse_append]
  refine ⟨hstep.deeds, hafter.collected, ?_, ?_⟩
  · rintro rfl
    rw [hstep.follows.collected, gathered]
    rcases foldl gather none calls with _ | _ | ⟨m, g⟩ <;> simp [gather]
  · intro g texts rest hgathered hlength hne hplain hlast hnext
    have hopen : Follows (some g) (converse calls s) := hgathered ▸ hafter
    exact hopen.answers_of_stop hlength hne hplain hlast hnext

/-! ### A sample -/

/-- A session on the network, with two answers to come. -/
def sampleSession : Session :=
  { address := .ofHost (.text "lab"), isOpen := true,
    script := { happenings := [.answer "5\n", .answer "1;2;3"] } }

/-- A query, and a section with a command and two queries. -/
def sampleCalls : List Call :=
  [.ask "*idn?", .start, .write "out on", .ask "volt?", .ask "*opc?"]

/-- The section is sent as one message when it is stopped, and its answers come back. -/
theorem sample_section : (converse (sampleCalls ++ [.stop]) sampleSession).script.deeds =
        (converse sampleCalls sampleSession).script.deeds ++ [.wrote ":out on;:volt?;*opc?"] ∧
      (converse (sampleCalls ++ [.stop]) sampleSession).collected = none ∧
      (Call.stop.perform (converse sampleCalls sampleSession)).1 = .ok ["1", "2;3"] := by
  have hattended : sampleSession.Attended := ⟨by decide, rfl, rfl, by simp [sampleSession]⟩
  have hgathered : gathered sampleCalls = some [("out on", false), ("volt?", true), ("*opc?", true)] := by decide
  have hsends : sends (gathered sampleCalls) .stop = [":out on;:volt?;*opc?"] := by
    rw [hgathered]
    decide
  have hnext : (converse sampleCalls sampleSession).script.happenings =
      [.answer (";".intercalate ["1", "2;3"])] := rfl
  have hlast : (";".intercalate ["1", "2;3"]).toList.getLast? = some '3' := by decide
  obtain ⟨hdeeds, -, hended, hanswers⟩ :=
    converse_sections hattended rfl sampleCalls .stop (by decide) (by decide)
  rw [hsends] at hdeeds
  refine ⟨hdeeds, (hended rfl).mpr (by simp [hgathered]), ?_⟩
  refine hanswers _ _ _ hgathered (by decide) (by decide) (by decide) ?_ hnext
  intro c hc
  obtain rfl : '3' = c := Option.some.inj (hlast.symm.trans hc)
  decide

end Session

end LabBench
