import LabBench.Proofs.Magnet.Operations
import LabBench.Instrument.MagnetSupply.Simulation
/-!
# Heaters are turned on only between equal currents

Whatever is done from the desk and whatever the instrument answers, every message that turns a heater on comes
right after the questions for the current of the magnet and for that of the supply. They were asked for the
same channel, and both were answered with the same current in the unit of the channel.

## Main results

* `performAll_guarded`
-/

namespace LabBench.MagnetSupply

open Act List

/-! ### Guarded minutes -/

/-- A heater is turned on after both currents were asked for, for the same channel, and found equal. -/
structure Cleared {β : Type} (magnet output heat : Entry β) : Prop where
  magnet_message : magnet.message = "imag?"
  output_message : output.message = "iout?"
  cleared : ∃ c settings a b p q, heat.speaker = some (c, settings) ∧ magnet.speaker = some (c, settings) ∧
    output.speaker = some (c, settings) ∧ magnet.answer = some a ∧ output.answer = some b ∧
    currentOf settings.units (.text a) = .ok p ∧ currentOf settings.units (.text b) = .ok q ∧
    p.equal q = .ok true

/-- Before every message that turns a heater on there are the two questions, and nothing between them. -/
def Guarded {β : Type} (entries : List (Entry β)) : Prop :=
  ∀ before heat after, entries = before ++ heat :: after → heat.message = "pshtr on" →
    ∃ earlier magnet output, before = earlier ++ [magnet, output] ∧ Cleared magnet output heat

section Guarded

variable {β : Type} {entries : List (Entry β)}

theorem guarded_nil : Guarded ([] : List (Entry β)) := by
  intro before heat after h
  cases before <;> cases h

theorem Guarded.append (h : Guarded entries) {e : Entry β}
    (he : e.message = "pshtr on" → ∃ earlier magnet output, entries = earlier ++ [magnet, output] ∧
      Cleared magnet output e) : Guarded (entries ++ [e]) := by
  intro before heat after heq hheat
  rcases eq_nil_or_concat after with rfl | ⟨after, last, rfl⟩
  · obtain ⟨rfl, hlast⟩ := append_inj' heq rfl
    cases hlast
    exact he hheat
  · rw [concat_eq_append, ← cons_append, ← append_assoc] at heq
    exact h before heat after (append_inj' heq rfl).1 hheat

theorem Guarded.append_of_ne (h : Guarded entries) {speaker : Option (Channel × ChannelSettings)} {before : β}
    {message : String} {answer : Option String} (hne : message ≠ "pshtr on") :
    Guarded (entries ++ [⟨speaker, before, message, answer⟩]) :=
  h.append fun heat => absurd heat hne

end Guarded

/-! ### Currents -/

section Currents

variable {β : Type} [Line β] {d : Desk Settings (Minutes β)}

theorem askCurrent_eq {c : Channel} (h : isSelected c d.settings.selected = true) (query : String) :
    askCurrent c query d = ((Line.ask query d.line.line).1.map Value.ofAnswer >>=
      currentOf (d.settings.channel c).units, asked c query d) := by
  have hask : askFor c query d = ((Line.ask query d.line.line).1.map Value.ofAnswer, asked c query d) :=
    (bind_of_ok (select_eq h)).trans (question_eq c query d)
  exact bind_lift_of_eq hask (currentOf (d.settings.channel c).units)

theorem exists_answer {x : Outcome (Option String)} {units : String} {p : Quantity Float}
    (h : (x.map Value.ofAnswer >>= currentOf units) = .ok p) :
    ∃ a, Minutes.answerOf x = some a ∧ currentOf units (.text a) = .ok p := by
  rcases x with e | _ | a
  · cases h
  · cases h
  · exact ⟨a, rfl, h⟩

/-- The currents are compared by the answers to the two questions, unless the first one had none. -/
theorem isSynced_cases {c : Channel} (h : isSelected c d.settings.selected = true) :
    (∃ e, isSynced c d = (.error e, asked c "imag?" d)) ∨
    ∃ x, isSynced c d = (x, asked c "iout?" (asked c "imag?" d)) ∧ (x = .ok true →
      ∃ a b p q, Minutes.answerOf (Line.ask "imag?" d.line.line).1 = some a ∧
        Minutes.answerOf (Line.ask "iout?" (Line.ask "imag?" d.line.line).2).1 = some b ∧
        currentOf (d.settings.channel c).units (.text a) = .ok p ∧
        currentOf (d.settings.channel c).units (.text b) = .ok q ∧ p.equal q = .ok true) := by
  have hmag := askCurrent_eq h "imag?"
  have hout := askCurrent_eq (d := asked c "imag?" d) h "iout?"
  rcases hp : (Line.ask "imag?" d.line.line).1.map Value.ofAnswer >>= currentOf (d.settings.channel c).units with e | p
  · rw [hp] at hmag
    exact Or.inl ⟨e, bind_of_error hmag⟩
  rw [hp] at hmag
  right
  rcases hq : (Line.ask "iout?" (asked c "imag?" d).line.line).1.map Value.ofAnswer >>=
    currentOf ((asked c "imag?" d).settings.channel c).units with e | q
  · rw [hq] at hout
    exact ⟨.error e, (bind_of_ok hmag).trans (bind_of_error hout), fun he => nomatch he⟩
  · rw [hq] at hout
    refine ⟨p.equal q, (bind_of_ok hmag).trans (bind_of_ok hout), fun heq => ?_⟩
    obtain ⟨a, ha, hp⟩ := exists_answer hp
    obtain ⟨b, hb, hq⟩ := exists_answer hq
    exact ⟨a, b, p, q, ha, hb, hp, hq, heq⟩

end Currents

/-! ### What is kept -/

section Kept

variable {β : Type} [Line β] {v : Value}

theorem guarded_write {message : String} (h : message ≠ "pshtr on") :
    Preserves (fun d : Desk Settings (Minutes β) => Guarded d.line.entries) (Desk.write message) :=
  fun _ hd => hd.append_of_ne h

theorem chan_ne_heat (text : String) : "chan " ++ text ≠ "pshtr on" := by
  intro h
  have htext := congrArg String.toList h
  rw [String.toList_append] at htext
  have hhead : 'c' = 'p' := (cons.inj htext).1
  exact absurd hhead (by decide)

theorem guarded_setChannel (v : Value) :
    Preserves (fun d : Desk Settings (Minutes β) => Guarded d.line.entries) (setChannel v) :=
  .bind (.lift _) fun _ => .bind (guarded_write (chan_ne_heat _)) fun _ _ hd => hd

theorem heater_choice (h : checkChoice "heater switch value" heaterChoices v = .ok ⟨⟩) :
    v = .text "on" ∨ v = .text "off" := by
  obtain ⟨member, hmem, hrest⟩ := Outcome.bind_eq_ok.mp h
  cases member with
  | false => cases hrest
  | true =>
    unfold Value.isMember at hmem
    split at hmem
    · cases hmem
    cases v with
    | text s =>
      have hany : ("on" == s || ("off" == s || false)) = true := Except.ok.inj hmem
      rw [Bool.or_false, Bool.or_eq_true, beq_iff_eq, beq_iff_eq] at hany
      rcases hany with rfl | rfl
      · exact Or.inl rfl
      · exact Or.inr rfl
    | _ => cases hmem

/-- The heater is turned on only after both answers have been compared. -/
theorem guarded_switchHeater {c : Channel} (hv : checkChoice "heater switch value" heaterChoices v = .ok ⟨⟩)
    {d : Desk Settings (Minutes β)} (hd : Guarded d.line.entries) (hc : isSelected c d.settings.selected = true) :
    Guarded (switchHeater c v d).2.line.entries := by
  have hmag : Guarded (asked c "imag?" d).line.entries := hd.append_of_ne (by decide)
  have hout : Guarded (asked c "iout?" (asked c "imag?" d)).line.entries := hmag.append_of_ne (by decide)
  rcases isSynced_cases hc with ⟨e, hsynced⟩ | ⟨x, hsynced, hcleared⟩
  · rw [switchHeater, bind_of_error hsynced]
    exact hmag
  cases x with
  | error e =>
    rw [switchHeater, bind_of_error hsynced]
    exact hout
  | ok synced =>
    rw [switchHeater, bind_of_ok hsynced]
    rcases heater_choice hv with rfl | rfl
    · cases synced with
      | false => exact hout
      | true =>
        obtain ⟨a, b, p, q, hans⟩ := hcleared rfl
        refine hout.append fun _ => ?_
        exact ⟨d.line.entries, _, _, append_assoc _ _ _, rfl, rfl,
          c, d.settings.channel c, a, b, p, q, rfl, rfl, rfl, hans⟩
    · have hoff : Guarded (ordered c ("pshtr" ++ " " ++ "off") (asked c "iout?" (asked c "imag?" d))).line.entries :=
        hout.append_of_ne (by decide)
      cases synced <;> exact hoff

theorem kept_guarded (chosen : Value → Prop) :
    Kept chosen fun d : Desk Settings (Minutes β) => Guarded d.line.entries where
  remember _ _ _ hd := hd
  sleep := .sleep fun _ _ hd => hd
  choose v _ := guarded_setChannel v
  askChannel := .bind (fun _ hd => hd.append_of_ne (by decide)) fun _ => .pure _
  restarts d hd := ((guarded_write (by decide)).ensures hd).bind fun _ =>
    brings_select (fun _ => guarded_setChannel _) .one
  question c query hqry d hd := by
    rw [question_eq]
    exact hd.1.append_of_ne hqry.2
  order c command argument hord d hd := hd.1.append_of_ne hord.2
  switchHeater c v hv d hd := guarded_switchHeater hv hd.1 (hd.2 c rfl)

end Kept

/-! ### Sequences of operations -/

/-- In the minutes of every sequence of operations, on every line, a heater is turned on only right after both
currents were asked for, for its channel, and found equal. The operations are the same without minutes. -/
theorem performAll_guarded {β : Type} [Line β] (ops : List Operation) (d : Desk Settings β) :
    withoutMinutes (performAll ops (withMinutes d)) = performAll ops d ∧
      Guarded (performAll ops (withMinutes d)).line.entries := by
  refine ⟨(performAll_withoutMinutes ops (withMinutes d)).symm, ?_⟩
  exact performAll_kept (kept_guarded fun _ => True) (fun _ _ _ _ _ => trivial) guarded_nil

-- A heater of a simulated supply can be turned on while no current flows.
example : (performAll [.set ["channel1"] "persistent_switch_heater" (.text "on")]
    (withMinutes ⟨{}, [], ({ memory := Simulation.blank } : Simulated Simulation.Memory)⟩)).line.entries.map
      Entry.message = ["chan 1", "imag?", "iout?", "pshtr on"] := by
  decide +kernel

end LabBench.MagnetSupply
