import LabBench.Instrument.MagnetSupply.Basic
import LabBench.Proofs.Wire.Reactions
/-!
# Minutes of what is said to a supply

Minutes can be kept on any line: of every message they have the channel for which it was meant, the state of
the line before it and what came back. Keeping them changes nothing else.

All operations on a supply are composed of a few that speak. A channel is selected before anything is said
for it, and as long as only this channel is spoken for it stays selected. What all operations keep up is
therefore found from the few that speak.
-/

namespace LabBench.MagnetSupply

open Act

/-! ### Minutes -/

structure Entry (β : Type) where
  /-- The channel for which it was meant, with its settings. -/
  speaker : Option (Channel × ChannelSettings)
  /-- The line before the message. -/
  before : β
  message : String
  /-- What came back, if anything did. -/
  answer : Option String

structure Minutes (β : Type) where
  line : β
  /-- The channel for which the next message is meant. -/
  speaker : Option (Channel × ChannelSettings) := none
  entries : List (Entry β) := []

namespace Minutes

variable {β α : Type}

/-- Something is done on the line that is not in the minutes. -/
def aside (act : Act β α) : Act (Minutes β) α :=
  Act.focus Minutes.line (fun line s => { s with line }) act

/-- A message is sent, and it is in the minutes with what came back. -/
def record (message : String) (act : Act β α) (answer : Outcome α → Option String) : Act (Minutes β) α :=
  fun s => ((act s.line).1, {
    line := (act s.line).2
    entries := s.entries ++ [⟨s.speaker, s.line, message, answer (act s.line).1⟩] })

/-- What came back, unless there was a fault. -/
def answerOf : Outcome (Option String) → Option String
  | .ok answer => answer
  | .error _ => none

instance [Clocked β] : Clocked (Minutes β) where
  time s := Clocked.time s.line
  setTime t s := { s with line := Clocked.setTime t s.line }

instance [Line β] : Line (Minutes β) where
  write message := record message (Line.write message) fun _ => none
  readRaw := aside Line.readRaw
  ask message := record message (Line.ask message) answerOf
  startSection := aside Line.startSection
  stopSection := aside Line.stopSection
  identify := aside Line.identify
  settle := aside Line.settle
  close := aside Line.close

instance : Attentive (Minutes β) where
  hear c settings := modify fun s => { s with speaker := some (c, settings) }

end Minutes

/-- The desk when nothing is in the minutes yet. -/
def withMinutes {β : Type} (d : Desk Settings β) : Desk Settings (Minutes β) :=
  ⟨d.settings, d.status, { line := d.line }⟩

def withoutMinutes {β : Type} (d : Desk Settings (Minutes β)) : Desk Settings β :=
  ⟨d.settings, d.status, d.line.line⟩

/-- Two operations do the same, apart from the minutes. -/
def Erases {β α : Type} (act : Use (Minutes β) α) (act' : Use β α) : Prop :=
  ∀ d, act' (withoutMinutes d) = ((act d).1, withoutMinutes (act d).2)

/-- An operation that does the same with minutes and without. -/
abbrev ErasedOn (β : Type) [Line β] {α : Type} (act : ∀ {δ : Type} [Line δ] [Attentive δ], Use δ α) : Prop :=
  Erases (act : Use (Minutes β) α) (act : Use β α)

section Erases

variable {β α γ : Type}

theorem Erases.bind {act : Use (Minutes β) α} {act' : Use β α} {f : α → Use (Minutes β) γ} {f' : α → Use β γ}
    (h : Erases act act') (hf : ∀ a, Erases (f a) (f' a)) : Erases (act >>= f) (act' >>= f') := by
  intro d
  have hact := h d
  rcases hd : act d with ⟨e | a, t⟩
  · rw [hd] at hact
    rw [bind_of_error hact, bind_of_error hd]
  · rw [hd] at hact
    rw [bind_of_ok hact, bind_of_ok hd]
    exact hf a t

theorem Erases.ite {p : Prop} [Decidable p] {act₁ act₂ : Use (Minutes β) α} {act₁' act₂' : Use β α}
    (h₁ : Erases act₁ act₁') (h₂ : Erases act₂ act₂') :
    Erases (if p then act₁ else act₂) (if p then act₁' else act₂') := by
  split
  · exact h₁
  · exact h₂

variable [Line β]

theorem erases_lift (x : Outcome α) : ErasedOn β (Act.lift x) :=
  fun _ => rfl

theorem erases_consult (f : Settings → α) : ErasedOn β (Desk.consult f) :=
  fun _ => rfl

theorem erases_remember (f : Settings → Settings) : ErasedOn β (Desk.remember f) :=
  fun _ => rfl

theorem erases_announce (c : Channel) : ErasedOn β (announce c) :=
  (erases_consult _).bind fun _ _ => rfl

theorem erases_sleep (v : Value) : ErasedOn β (Clocked.sleep v) := by
  unfold ErasedOn Clocked.sleep
  split
  · exact (erases_lift _).bind fun _ => .ite (erases_lift _) (.ite (erases_lift _) fun _ => rfl)
  · exact erases_lift _

theorem erases_write (message : String) : ErasedOn β (Desk.write message) :=
  fun _ => rfl

theorem erases_ask (message : String) : ErasedOn β (Desk.ask message) :=
  Erases.bind (fun _ => rfl) fun _ => erases_lift _

theorem erases_setChannel (v : Value) : ErasedOn β (setChannel v) :=
  (erases_lift _).bind fun _ => (erases_write _).bind fun _ => erases_remember _

theorem erases_select (c : Channel) : ErasedOn β (select c) :=
  (erases_consult _).bind fun _ => .ite (erases_setChannel _) (erases_lift _)

theorem erases_question (c : Channel) (query : String) : ErasedOn β (question c query) :=
  (erases_announce c).bind fun _ => erases_ask query

theorem erases_order (c : Channel) (command argument : String) : ErasedOn β (order c command argument) :=
  (erases_announce c).bind fun _ => erases_write _

theorem erases_askCurrent (c : Channel) (query : String) : ErasedOn β (askCurrent c query) :=
  (erases_consult _).bind fun _ =>
    ((erases_select c).bind fun _ => erases_question c query).bind fun _ => erases_lift _

theorem erases_isSynced (c : Channel) : ErasedOn β (isSynced c) :=
  (erases_askCurrent c "imag?").bind fun _ => (erases_askCurrent c "iout?").bind fun _ => erases_lift _

theorem erases_switchHeater (c : Channel) (v : Value) : ErasedOn β (switchHeater c v) :=
  (erases_isSynced c).bind fun _ => (erases_lift _).bind fun _ =>
    .ite ((erases_lift _).bind fun _ => erases_order c _ _) (erases_order c _ _)

end Erases

/-! ### Speaking -/

theorem isSelected_unique {c c' : Channel} {v : Value} (h : isSelected c v = true) (h' : isSelected c' v = true) :
    c = c' := by
  cases v with
  | int n =>
    have hn : n = c.number := beq_iff_eq.mp h
    have hn' : n = c'.number := beq_iff_eq.mp h'
    rw [hn] at hn'
    cases c <;> cases c' <;> first | rfl | exact absurd hn' (by decide)
  | _ => cases h

theorem isSelected_number (c : Channel) : isSelected c (.int c.number) = true :=
  beq_self_eq_true c.number

theorem checkChoice_number (c : Channel) : checkChoice "channel value" channelChoices (.int c.number) = .ok ⟨⟩ := by
  cases c <;> rfl

@[simp]
theorem selected_change (s : Settings) (c : Channel) (f : ChannelSettings → ChannelSettings) :
    (s.change c f).selected = s.selected := by
  cases c <;> rfl

section Selecting

variable {β : Type} [Line β] {c : Channel} {d d' : Desk Settings β} {v : Value}

theorem select_eq (h : isSelected c d.settings.selected = true) : select c d = (.ok ⟨⟩, d) := by
  change (if !isSelected c d.settings.selected then setChannel (.int c.number) else pure ⟨⟩ : Use β PUnit) d = _
  rw [h]
  rfl

theorem select_of_not (h : isSelected c d.settings.selected = false) : select c d = setChannel (.int c.number) d := by
  change (if !isSelected c d.settings.selected then setChannel (.int c.number) else pure ⟨⟩ : Use β PUnit) d = _
  rw [h]
  rfl

theorem setChannel_selected (h : setChannel v d = (.ok ⟨⟩, d')) : d'.settings.selected = v := by
  obtain ⟨_, _, hrest⟩ := lift_bind_eq_ok.mp h
  obtain ⟨_, d₁, _, hremember⟩ := bind_eq_ok.mp hrest
  cases hremember
  rfl

theorem setChannel_of_write (hchk : checkChoice "channel value" channelChoices v = .ok ⟨⟩)
    (h : Desk.write ("chan " ++ v.display) d = (.ok ⟨⟩, d')) :
    setChannel v d = (.ok ⟨⟩, { d' with settings := { d'.settings with selected := v } }) :=
  (lift_bind_of_ok hchk _ _).trans (bind_of_ok h)

theorem setChannel_of_write_error {e : Fault} (hchk : checkChoice "channel value" channelChoices v = .ok ⟨⟩)
    (h : Desk.write ("chan " ++ v.display) d = (.error e, d')) : setChannel v d = (.error e, d') :=
  (lift_bind_of_ok hchk _ _).trans (bind_of_error h)

theorem setChannel_of_check_error {e : Fault} (hchk : checkChoice "channel value" channelChoices v = .error e) :
    setChannel v d = (.error e, d) := by
  rw [setChannel, hchk]
  rfl

end Selecting

section Speaking

variable {β : Type} [Line β]

/-- The desk after a question of a channel. -/
def asked (c : Channel) (query : String) (d : Desk Settings (Minutes β)) : Desk Settings (Minutes β) :=
  { d with line := {
      line := (Line.ask query d.line.line).2
      entries := d.line.entries ++ [⟨some (c, d.settings.channel c), d.line.line, query,
        Minutes.answerOf (Line.ask query d.line.line).1⟩] } }

/-- The desk after a command of a channel. -/
def ordered (c : Channel) (message : String) (d : Desk Settings (Minutes β)) : Desk Settings (Minutes β) :=
  { d with line := {
      line := (Line.write message d.line.line).2
      entries := d.line.entries ++ [⟨some (c, d.settings.channel c), d.line.line, message, none⟩] } }

/-- The desk after a message that is for no channel in particular. -/
def sent (message : String) (d : Desk Settings (Minutes β)) : Desk Settings (Minutes β) :=
  { d with line := {
      line := (Line.write message d.line.line).2
      entries := d.line.entries ++ [⟨d.line.speaker, d.line.line, message, none⟩] } }

theorem write_eq (message : String) (d : Desk Settings (Minutes β)) :
    Desk.write message d = ((Line.write message d.line.line).1, sent message d) :=
  rfl

theorem write_of_eq {message : String} {d : Desk Settings (Minutes β)} {line : β} {x : Outcome PUnit}
    (h : Line.write message d.line.line = (x, line)) :
    Desk.write message d = (x, { d with line := {
      line, entries := d.line.entries ++ [⟨d.line.speaker, d.line.line, message, none⟩] } }) := by
  rw [write_eq, sent, h]

theorem question_eq (c : Channel) (query : String) (d : Desk Settings (Minutes β)) :
    question c query d = ((Line.ask query d.line.line).1.map Value.ofAnswer, asked c query d) := by
  have hask : question c query d = (Act.lift (Line.ask query d.line.line).1 >>= fun a => pure (Value.ofAnswer a) :
    Use (Minutes β) Value) (asked c query d) := rfl
  rw [hask]
  cases (Line.ask query d.line.line).1 <;> rfl

theorem order_eq (c : Channel) (command argument : String) (d : Desk Settings (Minutes β)) :
    order c command argument d = ((Line.write (command ++ " " ++ argument) d.line.line).1,
      ordered c (command ++ " " ++ argument) d) :=
  rfl

end Speaking

/-! ### Messages about one channel -/

def scopedCommands : List String :=
  ["ulim", "llim", "pshtr", "sweep", "units", "rate", "imag", "iout"]

/-- A message with a command that is about one channel. -/
def Scoped (text : String) : Prop :=
  ∃ m, Message.ofText text = .ok m ∧ m.first ∈ scopedCommands

theorem scoped_iff {text : String} {m : Message} (hm : Message.ofText text = .ok m) :
    Scoped text ↔ m.first ∈ scopedCommands := by
  refine ⟨?_, fun h => ⟨m, hm, h⟩⟩
  rintro ⟨m', hm', h⟩
  cases hm.symm.trans hm'
  exact h

/-- A message about one channel that does not turn a heater on. -/
def Harmless (text : String) : Prop :=
  Scoped text ∧ text ≠ "pshtr on"

theorem ofText_scoped {command : String} (h : command ∈ scopedCommands) (argument : String) :
    Message.ofText (command ++ " " ++ argument) =
      .ok ⟨[command], String.ofList (Text.trim Text.isBlank argument.toList), false⟩ := by
  have htext : (command ++ " " ++ argument).toList = command.toList ++ ' ' :: argument.toList := by
    simp
  have hplain : ∀ c ∈ scopedCommands, c.toList.all (!Text.isBlank ·) = true ∧ c.toList ≠ [] ∧
      c.toList.getLast? ≠ some '?' ∧ Text.splitAt ':' c.toList = [c.toList] := by decide
  obtain ⟨hblank, hne, hqry, hspl⟩ := hplain command h
  rw [Message.ofText_command htext hblank hne hqry, hspl, List.map_singleton, String.ofList_toList]

/-- A command of another kind does not turn a heater on. -/
theorem harmless_command {command : String} (h : command ∈ scopedCommands) (hne : command ≠ "pshtr")
    (argument : String) : Harmless (command ++ " " ++ argument) := by
  have hparts := ofText_scoped h argument
  refine ⟨⟨_, hparts, h⟩, fun heat => ?_⟩
  have hheat : Message.ofText "pshtr on" = .ok ⟨["pshtr"], "on", false⟩ := rfl
  rw [heat, hheat] at hparts
  exact hne (congrArg Message.first (Except.ok.inj hparts)).symm

theorem harmless_question : ∀ command ∈ scopedCommands, Harmless (command ++ "?") := by
  have hqry : ∀ command ∈ scopedCommands,
      Message.ofText (command ++ "?") = .ok ⟨[command], "", true⟩ ∧ command ++ "?" ≠ "pshtr on" := by decide
  intro command h
  exact ⟨⟨_, (hqry command h).1, h⟩, (hqry command h).2⟩

theorem harmless_rate (range : Nat) : Harmless s!"rate? {range}" := by
  have htext : (s!"rate? {range}").toList = "rate".toList ++ '?' :: ' ' :: Nat.toDigits 10 range := by
    change ("rate? " ++ toString range).toList = _
    simp
  have hparts := Message.ofText_query htext (by decide)
  refine ⟨⟨_, hparts, ?_⟩, fun heat => ?_⟩
  · change "rate" ∈ scopedCommands
    decide
  · have hheat : Message.ofText "pshtr on" = .ok ⟨["pshtr"], "on", false⟩ := rfl
    rw [heat, hheat] at hparts
    exact absurd (congrArg Message.isQuery (Except.ok.inj hparts)) Bool.false_ne_true

/-! ### Composition -/

/-- How operations are composed, with minutes and without. A part may run while a channel is selected, and
then speaks for this channel only. `chosen` are the values by which a channel may be made the active one. -/
inductive Composed {β : Type} [Line β] (chosen : Value → Prop) :
    Option Channel → {α : Type} → Use (Minutes β) α → Use β α → Prop
  | lift {α : Type} (o : Option Channel) (x : Outcome α) : Composed chosen o (Act.lift x) (Act.lift x)
  | consult {α : Type} (o : Option Channel) (f : Settings → α) : Composed chosen o (Desk.consult f) (Desk.consult f)
  | remember (o : Option Channel) (c : Channel) (f : ChannelSettings → ChannelSettings) :
      Composed chosen o (remember c f) (remember c f)
  | sleep (o : Option Channel) (v : Value) : Composed chosen o (Clocked.sleep v) (Clocked.sleep v)
  | bind {α γ : Type} {o : Option Channel} {act : Use (Minutes β) α} {act' : Use β α}
      {f : α → Use (Minutes β) γ} {f' : α → Use β γ} (h : Composed chosen o act act')
      (hf : ∀ a, Composed chosen o (f a) (f' a)) : Composed chosen o (act >>= f) (act' >>= f')
  | choose (v : Value) (h : chosen v) : Composed chosen none (setChannel v) (setChannel v)
  | askChannel : Composed chosen none (Desk.ask "chan?") (Desk.ask "chan?")
  | spoken {α : Type} {c : Channel} {act : Use (Minutes β) α} {act' : Use β α} (h : Composed chosen (some c) act act') :
      Composed chosen none (select c >>= fun _ => act) (select c >>= fun _ => act')
  | restart {α : Type} {act : Use (Minutes β) α} {act' : Use β α} (h : Composed chosen (some .one) act act') :
      Composed chosen none ((Desk.write "*rst" >>= fun _ => select .one) >>= fun _ => act)
        ((Desk.write "*rst" >>= fun _ => select .one) >>= fun _ => act')
  | select (c : Channel) : Composed chosen (some c) (select c) (select c)
  | reselect (c : Channel) : Composed chosen (some c) (setChannel (.int c.number)) (setChannel (.int c.number))
  | question (c : Channel) {query : String} (h : Harmless query) :
      Composed chosen (some c) (question c query) (question c query)
  | order (c : Channel) (command argument : String) (h : command ∈ scopedCommands) (hne : command ≠ "pshtr") :
      Composed chosen (some c) (order c command argument) (order c command argument)
  | switchHeater (c : Channel) {v : Value} (h : checkChoice "heater switch value" heaterChoices v = .ok ⟨⟩) :
      Composed chosen (some c) (switchHeater c v) (switchHeater c v)

section While

variable {β : Type} {P : Desk Settings (Minutes β) → Prop} {c : Channel} {d : Desk Settings (Minutes β)}

/-- A property holds, and the channel that is spoken for is selected. -/
def While (P : Desk Settings (Minutes β) → Prop) (o : Option Channel) (d : Desk Settings (Minutes β)) : Prop :=
  P d ∧ ∀ c, o = some c → isSelected c d.settings.selected = true

theorem while_none (h : P d) : While P none d :=
  ⟨h, nofun⟩

theorem while_some (h : P d) (hc : isSelected c d.settings.selected = true) : While P (some c) d :=
  ⟨h, by rintro _ ⟨⟩; exact hc⟩

end While

section Composed

variable {β α : Type} [Line β] {chosen : Value → Prop} {o : Option Channel} {act' : Use β α}

theorem Composed.erases {act : Use (Minutes β) α} (h : Composed chosen o act act') : Erases act act' := by
  induction h with
  | lift _ x => exact erases_lift x
  | consult _ f => exact erases_consult f
  | remember _ c f => exact erases_remember _
  | sleep _ v => exact erases_sleep v
  | bind _ _ ih ihf => exact ih.bind ihf
  | choose v _ => exact erases_setChannel v
  | askChannel => exact erases_ask _
  | spoken _ ih => exact (erases_select _).bind fun _ => ih
  | restart _ ih => exact ((erases_write _).bind fun _ => erases_select _).bind fun _ => ih
  | select c => exact erases_select c
  | reselect c => exact erases_setChannel _
  | question c _ => exact erases_question c _
  | order c _ _ _ _ => exact erases_order c _ _
  | switchHeater c _ => exact erases_switchHeater c _

/-- A property holds after a step, and a stricter one if the step did not end in a fault. -/
abbrev Brings {σ : Type} (P Q : σ → Prop) (act : Act σ α) : Prop :=
  ∀ s, P s → Ensures act s (fun _ => Q) fun _ => P

theorem Brings.bind {σ γ : Type} {P Q : σ → Prop} {act : Act σ α} {f : α → Act σ γ} (h : Brings P Q act)
    (hQ : ∀ s, Q s → P s) (hf : ∀ a, Preserves Q (f a)) : Preserves P (act >>= f) := by
  refine preserves_of_ensures fun s hs => (h s hs).bind fun a t ht => ?_
  exact ((hf a).ensures ht).mono (fun _ => hQ) fun _ => hQ

/-- A property that all operations keep up. It is enough to look at the operations that change something or speak. -/
structure Kept (chosen : Value → Prop) (P : Desk Settings (Minutes β) → Prop) : Prop where
  remember : ∀ c f, Preserves P (remember c f)
  sleep : ∀ v, Preserves P (Clocked.sleep v)
  choose : ∀ v, (chosen v ∨ ∃ c : Channel, v = .int c.number) → Preserves P (setChannel v)
  askChannel : Preserves P (Desk.ask "chan?")
  restarts : Brings P (While P (some .one)) (Desk.write "*rst" >>= fun _ => select .one)
  question : ∀ c query, Harmless query → ∀ d, While P (some c) d → P (question c query d).2
  order : ∀ c command argument, Harmless (command ++ " " ++ argument) → ∀ d, While P (some c) d →
    P (order c command argument d).2
  switchHeater : ∀ c v, checkChoice "heater switch value" heaterChoices v = .ok ⟨⟩ → ∀ d, While P (some c) d →
    P (switchHeater c v d).2

theorem brings_select {P : Desk Settings (Minutes β) → Prop}
    (h : ∀ c : Channel, Preserves P (setChannel (.int c.number))) (c : Channel) :
    Brings P (While P (some c)) (MagnetSupply.select c) := by
  intro d hd
  cases hc : isSelected c d.settings.selected with
  | true => exact ensures_of_eq_ok (MagnetSupply.select_eq hc) (while_some hd hc)
  | false =>
    rw [Ensures, select_of_not hc]
    refine ⟨fun _ t ht => while_some ((h c).apply ht hd) ?_, fun _ t ht => (h c).apply ht hd⟩
    rw [setChannel_selected ht]
    exact isSelected_number c

section

variable {P : Desk Settings (Minutes β) → Prop} {c : Channel}

theorem While.preserves_question {query : String} (h : ∀ d, While P (some c) d → P (question c query d).2) :
    Preserves (While P (some c)) (question c query) := by
  intro d hd
  refine while_some (h d hd) ?_
  rw [question_eq]
  exact hd.2 c rfl

theorem While.preserves_order {command argument : String}
    (h : ∀ d, While P (some c) d → P (order c command argument d).2) :
    Preserves (While P (some c)) (order c command argument) :=
  fun d hd => while_some (h d hd) (hd.2 c rfl)

theorem While.preserves_select : Preserves (While P (some c)) (select c) := by
  intro d hd
  rwa [select_eq (hd.2 c rfl)]

theorem While.preserves_switchHeater
    (hquestion : ∀ query, Scoped query → ∀ d, While P (some c) d → P (question c query d).2)
    (hord : ∀ command argument, Scoped (command ++ " " ++ argument) → ∀ d, While P (some c) d →
      P (order c command argument d).2) (v : Value) : Preserves (While P (some c)) (switchHeater c v) := by
  have hpshtr : "pshtr" ∈ scopedCommands := by decide
  have hswitch := preserves_order (hord "pshtr" v.display ((scoped_iff (ofText_scoped hpshtr _)).mpr hpshtr))
  have hcurrent {query : String} (h : Scoped query) : Preserves (While P (some c)) (askCurrent c query) :=
    .bind (fun _ hd => hd) fun _ => .bind (.bind preserves_select fun _ => preserves_question (hquestion query h))
      fun _ => .lift _
  refine .bind (.bind (hcurrent (harmless_question "imag" (by decide)).1) fun _ =>
    .bind (hcurrent (harmless_question "iout" (by decide)).1) fun _ => .lift _) fun _ => ?_
  refine .bind (.lift _) fun _ => .ite ?_ hswitch
  exact .bind (.lift _) fun _ => hswitch

end

/-- What the operations that speak keep up is kept up by all. -/
theorem Composed.preserves {P : Desk Settings (Minutes β) → Prop} (hP : Kept chosen P)
    {act : Use (Minutes β) α} (h : Composed chosen o act act') : Preserves (While P o) act := by
  have hchoose (c : Channel) : Preserves P (setChannel (.int c.number)) := hP.choose _ (.inr ⟨c, rfl⟩)
  induction h with
  | lift _ x => exact .lift x
  | consult _ f => exact fun _ hd => hd
  | remember o c f =>
    intro d hd
    have hsel := selected_change d.settings c f
    exact ⟨hP.remember c f d hd.1, fun c' hc => (congrArg (isSelected c') hsel).trans (hd.2 c' hc)⟩
  | sleep o v =>
    exact fun d hd => ⟨hP.sleep v d hd.1, Preserves.sleep (P := fun d => ∀ c, o = some c →
      isSelected c d.settings.selected = true) (fun _ _ h => h) v d hd.2⟩
  | bind _ _ ih ihf => exact ih.bind ihf
  | choose v hv => exact fun d hd => while_none (hP.choose v (.inl hv) d hd.1)
  | askChannel => exact fun d hd => while_none (hP.askChannel d hd.1)
  | spoken _ ih => exact fun d hd => while_none ((brings_select hchoose _).bind (fun _ h => h.1) (fun _ => ih) d hd.1)
  | restart _ ih => exact fun d hd => while_none (hP.restarts.bind (fun _ h => h.1) (fun _ => ih) d hd.1)
  | select c => exact While.preserves_select
  | reselect c =>
    have hreselect : Preserves (fun d => isSelected c d.settings.selected = true)
        (setChannel (.int c.number) : Use (Minutes β) PUnit) :=
      .bind (.lift _) fun _ => .bind (fun _ hd => hd) fun _ _ _ => isSelected_number c
    exact fun d hd => while_some (hchoose c d hd.1) (hreselect d (hd.2 c rfl))
  | question c hqry => exact While.preserves_question (hP.question c _ hqry)
  | order c _ argument h hne =>
    exact While.preserves_order (hP.order c _ argument (harmless_command h hne argument))
  | switchHeater c hv =>
    have hselected := While.preserves_switchHeater (β := β) (P := fun _ => True) (c := c) (fun _ _ _ _ => trivial)
      fun _ _ _ _ _ => trivial
    exact fun d hd => ⟨hP.switchHeater c _ hv d hd, (hselected _ d ⟨trivial, hd.2⟩).2⟩

end Composed

end LabBench.MagnetSupply
