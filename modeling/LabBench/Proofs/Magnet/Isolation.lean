import LabBench.Proofs.Magnet.Operations
import LabBench.Proofs.Magnet.Supply
/-!
# The channels of a simulated supply do not meet

A simulated supply takes a message about a channel to be about the channel that is selected. The number of the
channel that was selected last is remembered at the desk, and no channel is selected again as long as it is the
one remembered. Therefore the desk must not be mistaken: what is remembered has to be what is selected. A
restart breaks this for a moment, until the first channel is selected again.

## Main results

* `operate_isolated`
-/

namespace LabBench.MagnetSupply

open Act List

namespace Simulation

/-! ### Confined steps -/

/-- The supply with a channel in another state. -/
def withCoil (b : Bool) (k : Coil) (s : Simulated Memory) : Simulated Memory :=
  { s with memory := s.memory.put b k }

@[simp]
theorem isFirst_withCoil (b : Bool) (k : Coil) (s : Simulated Memory) :
    isFirst (withCoil b k s).memory = isFirst s.memory :=
  isFirst_put s.memory b k

theorem coil_put_not (m : Memory) (first : Bool) (k : Coil) : (m.put (!first) k).coil first = m.coil first := by
  cases first <;> rfl

theorem put_comm (m : Memory) (first : Bool) (k l : Coil) :
    (m.put (!first) k).put first l = (m.put first l).put (!first) k := by
  cases first <;> rfl

variable {α γ : Type} {first : Bool} {act : Act (Simulated Memory) α}

/-- A step that neither reads nor changes the channel that is not selected, nor the selection or the log. -/
def Confined (first : Bool) (act : Act (Simulated Memory) α) : Prop :=
  ∀ s, isFirst s.memory = .ok first → (act s).2.memory.selected = s.memory.selected ∧ (act s).2.log = s.log ∧
      ∀ k, act (withCoil (!first) k s) = ((act s).1, withCoil (!first) k (act s).2)

theorem Confined.isFirst_eq (h : Confined first act) {s : Simulated Memory}
    (hs : isFirst s.memory = .ok first) : isFirst (act s).2.memory = .ok first := by
  have hsel : isFirst (act s).2.memory = isFirst s.memory := by
    unfold isFirst
    rw [(h s hs).1]
  exact hsel.trans hs

theorem confined_lift (x : Outcome α) : Confined first (Act.lift x) :=
  fun _ _ => ⟨rfl, rfl, fun _ => rfl⟩

theorem Confined.bind {f : α → Act (Simulated Memory) γ}
    (h : Confined first act) (hf : ∀ a, Confined first (f a)) : Confined first (act >>= f) := by
  intro s hs
  obtain ⟨hsel, hlog, hoth⟩ := h s hs
  have hfst := h.isFirst_eq hs
  rcases hact : act s with ⟨e | a, t⟩
  · rw [hact] at hsel hlog hoth
    rw [bind_of_error hact]
    exact ⟨hsel, hlog, fun k => bind_of_error (hoth k)⟩
  · rw [hact] at hsel hlog hoth hfst
    rw [bind_of_ok hact]
    obtain ⟨hsel', hlog', hoth'⟩ := hf a t hfst
    exact ⟨hsel'.trans hsel, hlog'.trans hlog, fun k => (bind_of_ok (hoth k)).trans (hoth' k)⟩

theorem Confined.ite {p : Prop} [Decidable p] {act act' : Act (Simulated Memory) α} (h : Confined first act)
    (h' : Confined first act') : Confined first (if p then act else act') := by
  split
  · exact h
  · exact h'

/-- What is read of the supply may be anything but the memory of its channels. -/
theorem confined_get_bind {f : Simulated Memory → Act (Simulated Memory) α} (h : ∀ s, Confined first (f s))
    (hf : ∀ k s, f (withCoil (!first) k s) = f s) : Confined first (get >>= f) := by
  intro s hs
  obtain ⟨hsel, hlog, hoth⟩ := h s s hs
  refine ⟨hsel, hlog, fun k => ?_⟩
  change f (withCoil (!first) k s) (withCoil (!first) k s) = _
  rw [hf]
  exact hoth k

theorem confined_modify {f : Simulated Memory → Simulated Memory} (hsel : ∀ s, (f s).memory = s.memory)
    (hlog : ∀ s, (f s).log = s.log) (hf : ∀ k s, f (withCoil (!first) k s) = withCoil (!first) k (f s)) :
    Confined first (modify f) :=
  fun s _ => ⟨congrArg Memory.selected (hsel s), hlog s, fun k => Prod.ext rfl (hf k s)⟩

theorem confined_coil : Confined first coil := by
  intro s hs
  have hoth (k : Coil) := coil_eq (s := withCoil (!first) k s) ((isFirst_withCoil _ k s).trans hs)
  rw [coil_eq hs]
  refine ⟨rfl, rfl, fun k => ?_⟩
  rw [hoth k]
  exact Prod.ext (congrArg Except.ok (coil_put_not s.memory first k)) rfl

theorem confined_change (f : Coil → Coil) : Confined first (change f) := by
  intro s hs
  have hoth (k : Coil) := change_eq (s := withCoil (!first) k s) ((isFirst_withCoil _ k s).trans hs) f
  rw [change_eq hs]
  refine ⟨by cases first <;> rfl, rfl, fun k => ?_⟩
  rw [hoth k]
  refine Prod.ext rfl ?_
  change ({ s with memory := (s.memory.put (!first) k).put first (f ((s.memory.put (!first) k).coil first)) } :
    Simulated Memory) = { s with memory := (s.memory.put first (f (s.memory.coil first))).put (!first) k }
  rw [coil_put_not, put_comm]

theorem confined_now : Confined first (Clocked.now : Act (Simulated Memory) Float) :=
  confined_get_bind (fun _ => confined_lift _) fun _ _ => rfl

/-! ### Confined messages -/

theorem confined_present (c : Coil) : Confined first (present c) :=
  confined_now.bind fun _ => confined_lift _

theorem confined_startSweep (c : Coil) (sweep : String) : Confined first (startSweep c sweep) :=
  confined_now.bind fun _ => confined_change _

theorem confined_answer (c : Coil) (m : Message) : Confined first (answer c m) := by
  have hshown (c : Coil) (x : Float) : Confined first (do return some (← shown c x)) :=
    (confined_lift _).bind fun _ => confined_lift _
  unfold answer
  split
  case h_5 =>
    exact (confined_get_bind (fun _ => confined_lift _) fun k s => by cases first <;> rfl).bind fun _ =>
      confined_lift _
  case h_8 =>
    have hmag : Confined first (coil >>= fun c => do return some (← shown c c.magnet)) :=
      confined_coil.bind fun c => hshown c _
    exact .ite ((confined_present c).bind fun x => (confined_change _).bind fun _ => hmag) hmag
  case h_9 => exact (confined_present c).bind fun x => (confined_change _).bind fun _ => hshown _ _
  case h_7 => exact (confined_lift _).bind fun _ => confined_lift _
  case h_1 | h_2 => exact hshown _ _
  all_goals exact confined_lift _

/-- A command that does not select a channel is about the one that is selected. -/
theorem confined_obey (c : Coil) {m : Message} (h : m.first ≠ "chan") : Confined first (obey c m) := by
  have hchg (f : Coil → Coil) : Confined first (change f >>= fun _ => pure (some Value.none)) :=
    (confined_change f).bind fun _ => confined_lift _
  unfold obey
  split
  case h_1 | h_2 => exact (confined_lift _).bind fun _ => .ite (hchg _) (confined_lift _)
  case h_3 =>
    split
    · exact hchg _
    · exact hchg _
    · exact confined_lift _
  case h_4 => exact (confined_startSweep c _).bind fun _ => confined_lift _
  case h_5 hchan => exact absurd hchan h
  case h_6 => exact hchg _
  case h_7 => exact (confined_lift _).bind fun _ => hchg _
  all_goals exact confined_lift _

theorem confined_polish (x : Option Value) : Confined first (polish x) := by
  cases x with
  | none => exact confined_lift _
  | some v => exact (confined_lift _).bind fun _ => confined_lift _

theorem confined_respond {text : String} {m : Message} (hm : Message.ofText text = .ok m)
    (hchan : m.isQuery = true ∨ m.first ≠ "chan") : Confined first (respond text) := by
  intro s hs
  have hsame := respond_eq hm hs
  have hoth (k : Coil) := respond_eq (s := withCoil (!first) k s) hm ((isFirst_withCoil _ k s).trans hs)
  have hcoil (k : Coil) : (withCoil (!first) k s).memory.coil first = s.memory.coil first :=
    coil_put_not s.memory first k
  have hconfined : Confined first ((if m.isQuery then answer (s.memory.coil first) m
      else obey (s.memory.coil first) m) >>= polish) := by
    refine .bind ?_ confined_polish
    cases hqry : m.isQuery with
    | true => exact confined_answer _ m
    | false => exact confined_obey _ (hchan.resolve_left (by simp [hqry]))
  obtain ⟨hsel, hlog, hconf⟩ := hconfined s hs
  rw [hsame]
  refine ⟨hsel, hlog, fun k => ?_⟩
  rw [hoth k, hcoil k]
  exact hconf k

theorem confined_say (v : Value) (ending : String) :
    Confined first (Simulated.say v ending : Act (Simulated Memory) PUnit) :=
  confined_modify (fun _ => rfl) (fun _ => rfl) fun _ _ => rfl

theorem confined_respondCommon {text : String} (hrst : text ≠ "*rst") (hpreset : text ≠ "system:preset") :
    Confined first (Simulated.respondCommon text : Act (Simulated Memory) (Option Value)) := by
  unfold Simulated.respondCommon
  split
  case h_3 => exact absurd rfl hrst
  case h_4 => exact absurd rfl hpreset
  all_goals exact confined_lift _

/-- What follows when a message has been noted. -/
def reaction (text : String) : Act (Simulated Memory) PUnit := do
  match ← respond text with
  | some v => Simulated.say v
  | none =>
    match ← Simulated.respondCommon text with
    | some v => Simulated.say v
    | none =>
      let shown := Text.quote text
      .refuse .unsupported s!"Cannot understand message: {shown}"

theorem receive_eq (text : String) (s : Simulated Memory) :
    Simulated.receive text s = reaction text (Simulated.noted text s) :=
  rfl

/-- The answer to a question, after what followed from it. -/
def reply : Act (Simulated Memory) (Option String) := do
  let answer ← Line.stripped (← get).output
  match (← get).answers with
  | none => return some answer
  | some answers =>
    modify fun s => { s with answers := some (answers ++ [answer]) }
    return none

theorem query_eq (text : String) (s : Simulated Memory) :
    Simulated.query text s = (reaction text >>= fun _ => reply) (Simulated.noted text s) :=
  rfl

theorem confined_reaction {text : String} {m : Message} (hm : Message.ofText text = .ok m)
    (hchan : m.isQuery = true ∨ m.first ≠ "chan") (hrst : text ≠ "*rst") (hpreset : text ≠ "system:preset") :
    Confined first (reaction text) := by
  refine (confined_respond hm hchan).bind fun response => ?_
  cases response with
  | some v => exact confined_say v _
  | none =>
    refine (confined_respondCommon hrst hpreset).bind fun response => ?_
    cases response with
    | some v => exact confined_say v _
    | none => exact confined_lift _

theorem confined_reply : Confined first reply := by
  refine confined_get_bind (fun s => (confined_lift _).bind fun answer => ?_) fun _ _ => rfl
  refine confined_get_bind (fun t => ?_) fun _ _ => rfl
  cases t.answers with
  | none => exact confined_lift _
  | some answers =>
    refine Confined.bind (confined_modify ?_ ?_ ?_) fun _ => confined_lift _
    · exact fun _ => rfl
    · exact fun _ => rfl
    · exact fun _ _ => rfl

end Simulation

open LabBench.MagnetSupply.Simulation

/-! ### Messages that arrive -/

def Active (c : Channel) (m : Memory) : Prop :=
  m.selected.toInt = .ok c.number

variable {c : Channel}

theorem Active.isFirst_eq {m : Memory} (h : Active c m) : isFirst m = .ok (c == .one) := by
  unfold isFirst
  rw [h]
  cases c <;> rfl

variable {s : Simulated Memory}

theorem receive_restart {first : Bool} (h : isFirst s.memory = .ok first) :
    ∃ s', Simulated.receive "*rst" s = (.ok ⟨⟩, s') ∧ Active .one s'.memory ∧ s'.log = s.log ++ ["*rst"] := by
  have hm : Message.ofText "*rst" = .ok ⟨["*rst"], "", false⟩ := rfl
  have hresp : respond "*rst" (Simulated.noted "*rst" s) = (.ok none, Simulated.noted "*rst" s) :=
    respond_eq (s := Simulated.noted "*rst" s) hm h
  exact ⟨_, bind_of_ok hresp, rfl, rfl⟩

/-- A step that is the same whatever state the other channel is in, and that leaves this state alone. -/
structure Apart {α : Type} (c : Channel) (act : Act (Simulated Memory) α) (s : Simulated Memory) : Prop where
  kept : (act s).2.memory.coil (c != .one) = s.memory.coil (c != .one)
  unread : ∀ k, act (withCoil (c != .one) k s) = ((act s).1, withCoil (c != .one) k (act s).2)

theorem apart_of_confined {α : Type} {act : Act (Simulated Memory) α}
    (h : Confined (c == .one) act) (hc : Active c s.memory) : Apart c act s := by
  have hunread := (h s hc.isFirst_eq).2.2
  refine ⟨?_, hunread⟩
  have hsame : withCoil (c != .one) (s.memory.coil (c != .one)) s = s := by
    rw [withCoil, Memory.put_coil]
  have hkept := congrArg (fun x => x.2.memory.coil (c != .one)) (hunread (s.memory.coil (c != .one)))
  have hput : (withCoil (c != .one) (s.memory.coil (c != .one)) (act s).2).memory.coil (c != .one) =
      s.memory.coil (c != .one) := Memory.coil_put _ _ _
  change (act (withCoil (c != .one) (s.memory.coil (c != .one)) s)).2.memory.coil (c != .one) = _ at hkept
  rw [hsame] at hkept
  exact hkept.trans hput

theorem apart_of_noted {α : Type} {act rest : Act (Simulated Memory) α} {text : String}
    (h : Confined (c == .one) rest) (hact : ∀ s, act s = rest (Simulated.noted text s))
    (hc : Active c s.memory) : Apart c act s := by
  have hrest : Apart c rest (Simulated.noted text s) := apart_of_confined h hc
  refine ⟨?_, fun k => ?_⟩
  · rw [hact]
    exact hrest.kept
  · rw [hact, hact]
    exact hrest.unread k

theorem Scoped.confined_reaction {text : String} (h : Scoped text) {first : Bool} : Confined first (reaction text) := by
  have hpreset : ¬Scoped "system:preset" := (scoped_iff rfl).not.mpr (by decide)
  have hrst : ¬Scoped "*rst" := (scoped_iff rfl).not.mpr (by decide)
  obtain ⟨m, hm, hfst⟩ := h
  refine Simulation.confined_reaction hm (Or.inr ?_) ?_ ?_
  · rintro hchan
    rw [hchan] at hfst
    exact absurd hfst (by decide)
  · rintro rfl
    exact hrst ⟨m, hm, hfst⟩
  · rintro rfl
    exact hpreset ⟨m, hm, hfst⟩

/-- Messages about a channel are those that are meant for one. They arrive while it is selected, and do nothing
with the other one. -/
structure Addressed (e : Entry (Simulated Memory)) : Prop where
  about : Scoped e.message ↔ ∃ c settings, e.speaker = some (c, settings)
  active : ∀ c settings, e.speaker = some (c, settings) → Active c e.before.memory
  written : ∀ c settings, e.speaker = some (c, settings) → Apart c (Simulated.receive e.message) e.before
  asked : ∀ c settings, e.speaker = some (c, settings) → Apart c (Simulated.query e.message) e.before

theorem addressed_of_scoped {text : String} (h : Scoped text)
    (hc : Active c s.memory) (settings : ChannelSettings) (answer : Option String) :
    Addressed ⟨some (c, settings), s, text, answer⟩ where
  about := ⟨fun _ => ⟨c, settings, rfl⟩, fun _ => h⟩
  active := by
    rintro _ _ ⟨⟩
    exact hc
  written := by
    rintro _ _ ⟨⟩
    exact apart_of_noted h.confined_reaction (receive_eq text) hc
  asked := by
    rintro _ _ ⟨⟩
    exact apart_of_noted (h.confined_reaction.bind fun _ => confined_reply) (query_eq text) hc

theorem addressed_of_not_scoped {text : String} (h : ¬Scoped text) (s : Simulated Memory) (answer : Option String) :
    Addressed ⟨none, s, text, answer⟩ where
  about := ⟨fun hscoped => absurd hscoped h, by rintro ⟨_, _, ⟨⟩⟩⟩
  active := by rintro _ _ ⟨⟩
  written := by rintro _ _ ⟨⟩
  asked := by rintro _ _ ⟨⟩

/-! ### In step -/

/-- The minutes are those of the supply, and all messages in them are addressed. -/
structure Orderly (m : Minutes (Simulated Memory)) : Prop where
  speaker : m.speaker = none
  log : m.line.log = m.entries.map Entry.message
  entries : ∀ e ∈ m.entries, Addressed e

/-- The channel that is remembered is the one that is selected. -/
structure InStep (d : Desk Settings (Minutes (Simulated Memory))) : Prop extends Orderly d.line where
  active : ∃ c, Active c d.line.line.memory ∧ ∀ c', isSelected c' d.settings.selected = true → c' = c

variable {m : Minutes (Simulated Memory)} {line : Simulated Memory} {e : Entry (Simulated Memory)}

theorem Orderly.append (h : Orderly m) (hlog : line.log = m.line.log ++ [e.message]) (he : Addressed e) :
    Orderly { line, entries := m.entries ++ [e] } where
  speaker := rfl
  log := by
    change line.log = (m.entries ++ [e]).map Entry.message
    rw [hlog, h.log, map_append, map_singleton]
  entries := by
    intro e' he'
    rcases mem_append.mp he' with hold | hnew
    · exact h.entries e' hold
    · rw [mem_singleton.mp hnew]
      exact he

theorem Orderly.append_plain (h : Orderly m) {text : String} (hlog : line.log = m.line.log ++ [text])
    (htext : ¬Scoped text) (answer : Option String) :
    Orderly { line, entries := m.entries ++ [⟨m.speaker, m.line, text, answer⟩] } := by
  refine h.append hlog ?_
  rw [h.speaker]
  exact addressed_of_not_scoped htext _ _

variable {d : Desk Settings (Minutes (Simulated Memory))} {c : Channel}

theorem InStep.active_of_selected (h : InStep d) (hc : isSelected c d.settings.selected = true) :
    Active c d.line.line.memory := by
  obtain ⟨c', hactive, hsame⟩ := h.active
  rw [hsame c hc]
  exact hactive

/-- Messages that do not change the selection leave the desk in step. -/
theorem InStep.relay (h : InStep d) (hm : Orderly m)
    (hsel : m.line.memory.selected = d.line.line.memory.selected) : InStep { d with line := m } where
  toOrderly := hm
  active := by
    obtain ⟨c, hactive, hsame⟩ := h.active
    exact ⟨c, (congrArg Value.toInt hsel).trans hactive, hsame⟩

theorem InStep.order (hd : While InStep (some c) d) {command argument : String}
    (h : Scoped (command ++ " " ++ argument)) : InStep (order c command argument d).2 := by
  have hactive := hd.1.active_of_selected (hd.2 c rfl)
  obtain ⟨hsel, hlog, -⟩ := h.confined_reaction
    (Simulated.noted (command ++ " " ++ argument) d.line.line) hactive.isFirst_eq
  rw [order_eq]
  exact hd.1.relay (hd.1.toOrderly.append hlog (addressed_of_scoped h hactive _ _)) hsel

theorem InStep.question (hd : While InStep (some c) d) {query : String} (h : Scoped query) :
    InStep (question c query d).2 := by
  have hactive := hd.1.active_of_selected (hd.2 c rfl)
  obtain ⟨hsel, hlog, -⟩ := (h.confined_reaction.bind fun _ => confined_reply)
    (Simulated.noted query d.line.line) hactive.isFirst_eq
  rw [question_eq]
  exact hd.1.relay (hd.1.toOrderly.append hlog (addressed_of_scoped h hactive _ _)) hsel

theorem inStep_askChannel : Preserves InStep (Desk.ask "chan?") := by
  have hconf {first : Bool} : Confined first (reaction "chan?" >>= fun _ => reply) :=
    (confined_reaction rfl (Or.inl rfl) (by decide) (by decide)).bind fun _ => confined_reply
  refine .bind (fun d hd => ?_) fun _ => .pure _
  obtain ⟨a, hactive, -⟩ := hd.active
  obtain ⟨hsel, hlog, -⟩ := hconf (Simulated.noted "chan?" d.line.line) hactive.isFirst_eq
  exact hd.relay (hd.toOrderly.append_plain hlog ((scoped_iff rfl).not.mpr (by decide)) _) hsel

/-- A channel that is selected is remembered, even if what was remembered before is wrong. -/
theorem exists_setChannel (hd : Orderly d.line) {a : Channel} (ha : Active a d.line.line.memory) (c : Channel) :
    ∃ d', setChannel (.int c.number) d = (.ok ⟨⟩, d') ∧ While InStep (some c) d' := by
  have hplain : ¬Scoped ("chan " ++ (Value.int c.number).display) := by
    rw [scoped_iff (ofText_chan _)]
    change "chan" ∉ scopedCommands
    decide
  obtain ⟨s', hrecv, hrecd⟩ := receive_chan ha.isFirst_eq (Value.int c.number).display
  refine ⟨_, setChannel_of_write (checkChoice_number c) (write_of_eq hrecv),
    while_some ⟨hd.append_plain hrecd.log hplain _, c, ?_, ?_⟩ (isSelected_number c)⟩
  · change s'.memory.selected.toInt = _
    rw [hrecd.memory]
    exact toInt_choose _ c
  · exact fun c' hc' => isSelected_unique hc' (isSelected_number c)

theorem channel_choice {n : Int} (h : checkChoice "channel value" channelChoices (.int n) = .ok ⟨⟩) :
    ∃ c : Channel, n = c.number := by
  obtain ⟨member, hmem, hrest⟩ := Outcome.bind_eq_ok.mp h
  cases member with
  | false => cases hrest
  | true =>
    have hany : (compare 1 n == .eq || (compare 2 n == .eq || false)) = true := Except.ok.inj hmem
    rw [Bool.or_false, Bool.or_eq_true, beq_iff_eq, beq_iff_eq, Int.compare_eq_eq, Int.compare_eq_eq] at hany
    rcases hany with rfl | rfl
    · exact ⟨.one, rfl⟩
    · exact ⟨.two, rfl⟩

theorem inStep_choose (n : Int) : Preserves InStep (setChannel (.int n)) := by
  intro d hd
  cases hchk : checkChoice "channel value" channelChoices (.int n) with
  | error e =>
    rw [setChannel_of_check_error hchk]
    exact hd
  | ok =>
    obtain ⟨c, rfl⟩ := channel_choice hchk
    obtain ⟨a, hactive, -⟩ := hd.active
    obtain ⟨d', hset, hd'⟩ := exists_setChannel hd.toOrderly hactive c
    rw [hset]
    exact hd'.1

/-- After a restart the first channel is selected, whatever is remembered. -/
theorem exists_restart (hd : InStep d) :
    ∃ d', (Desk.write "*rst" >>= fun _ => select .one) d = (.ok ⟨⟩, d') ∧ While InStep (some .one) d' := by
  obtain ⟨a, hactive, -⟩ := hd.active
  obtain ⟨s', hrecv, hfst, hlog⟩ := receive_restart hactive.isFirst_eq
  have hplain : ¬Scoped "*rst" := (scoped_iff rfl).not.mpr (by decide)
  have horderly := hd.toOrderly.append_plain hlog hplain none
  rw [bind_of_ok (write_of_eq hrecv)]
  cases hone : isSelected .one d.settings.selected with
  | true => exact ⟨_, select_eq hone, while_some ⟨horderly, .one, hfst, fun c' hc' => isSelected_unique hc' hone⟩ hone⟩
  | false =>
    obtain ⟨d', hset, hd'⟩ := exists_setChannel (d := { d with line := _ }) horderly hfst .one
    refine ⟨d', ?_, hd'⟩
    rw [← hset]
    exact select_of_not hone

/-- All operations that speak keep the desk and the supply in step, if channels are chosen by whole numbers. -/
theorem kept_inStep : Kept (fun v => ∃ n, v = .int n) InStep where
  remember c f d hd := by
    have hsel := selected_change d.settings c f
    obtain ⟨a, hactive, hsame⟩ := hd.active
    exact ⟨hd.toOrderly, a, hactive, fun c' hc' => hsame c' ((congrArg (isSelected c') hsel).symm.trans hc')⟩
  sleep := .sleep fun _ _ hd => ⟨⟨hd.speaker, hd.log, hd.entries⟩, hd.active⟩
  choose := by
    rintro _ (⟨n, rfl⟩ | ⟨c, rfl⟩)
    · exact inStep_choose n
    · exact inStep_choose c.number
  askChannel := inStep_askChannel
  restarts d hd := by
    obtain ⟨d', h, hd'⟩ := exists_restart hd
    exact ensures_of_eq_ok h hd'
  question c query hqry d hd := .question hd hqry.1
  order c command argument hord d hd := .order hd hord.1
  switchHeater c v _ d hd := (While.preserves_switchHeater (fun _ h _ hd => .question hd h)
    (fun _ _ h _ hd => .order hd h) v d hd).1

/-! ### After the connection -/

/-- After a connection, if channels are chosen by whole numbers: each message about a channel arrives while this
channel is selected, and does nothing with the other one. All messages are in the minutes. What is remembered at the
end is what is selected. -/
theorem operate_isolated (name : String) {dice : List Float} {line : Simulated Memory}
    (hline : Simulated.start dice = .ok line) {ops : List Operation}
    (hops : ∀ op ∈ ops, op.Chooses fun v => ∃ n, v = .int n) :
    withoutMinutes (operate name ops ({ line } : Minutes (Simulated Memory))) = operate name ops line ∧
      (operate name ops line).line.log =
        (operate name ops ({ line } : Minutes (Simulated Memory))).line.entries.map Entry.message ∧
      (∀ e ∈ (operate name ops ({ line } : Minutes (Simulated Memory))).line.entries, Addressed e) ∧
      ∀ c, isSelected c (operate name ops line).settings.selected = true →
        Active c (operate name ops line).line.memory := by
  have hstart : InStep { settings := {}, line := { line } } := by
    cases hline
    refine ⟨⟨rfl, rfl, by rintro _ ⟨⟩⟩, .one, rfl, ?_⟩
    rintro _ ⟨⟩
  have hend := operate_kept kept_inStep ⟨1, rfl⟩ name hops hstart
  rw [← operate_withoutMinutes]
  exact ⟨rfl, hend.log, hend.entries, fun c hc => hend.active_of_selected hc⟩

/-- The second channel is made active, the supply is reset, and then the second channel is asked. -/
def resetBetween : List Operation :=
  [.set [] "active_channel" (.int 2), .call [] "reset" [], .get ["channel2"] "high_limit"]

theorem resetBetween_isolated : (∀ op ∈ resetBetween, op.Chooses fun v => ∃ n, v = .int n) ∧
      ∃ line : Simulated Memory, Simulated.start [] = .ok line ∧
        (∀ e ∈ (operate "Model4G" resetBetween ({ line } : Minutes (Simulated Memory))).line.entries, Addressed e) ∧
        ∀ c, isSelected c (operate "Model4G" resetBetween line).settings.selected = true →
          Active c (operate "Model4G" resetBetween line).line.memory := by
  have hops : ∀ op ∈ resetBetween, op.Chooses fun v => ∃ n, v = .int n := by
    intro op hop path v hset
    simp only [resetBetween, mem_cons, not_mem_nil, or_false] at hop
    rcases hop with rfl | rfl | rfl
    · cases hset
      exact ⟨2, rfl⟩
    · cases hset
    · cases hset
  obtain ⟨line, hline⟩ : ∃ line : Simulated Memory, Simulated.start [] = .ok line := ⟨_, rfl⟩
  exact ⟨hops, line, hline, (operate_isolated "Model4G" hline hops).2.2⟩

end LabBench.MagnetSupply
