import LabBench.Proofs.Magnet.Isolation
/-!
# What holds of a simulated supply at all times

Whatever is done at the desk after the connection, the lower limit of a channel is at or below the upper one, and
questions are answered at once. If a channel is remembered at the desk and the supply acts on any channel, then it
acts on this one. A channel may be chosen by a value that the supply does not understand. From then on the supply
does not act on any channel, and all that is said to it is refused.
-/

namespace LabBench.MagnetSupply

open LabBench.MagnetSupply.Simulation Act

/-! ### Limits -/

/-- The limits of both channels are in order, and questions are answered at once. -/
structure Sane (s : Simulated Memory) : Prop where
  answers : s.answers = none
  limits : ∀ b, (s.memory.coil b).low ≤ (s.memory.coil b).high

variable {s : Simulated Memory} {v : Value} {m : Message} {text : String}

theorem Sane.put (h : Sane s) {k : Coil} (hk : k.low ≤ k.high) (first : Bool) :
    Sane { s with memory := s.memory.put first k } where
  answers := h.answers
  limits b := by
    cases first <;> cases b
    · exact hk
    · exact h.limits true
    · exact h.limits false
    · exact hk

theorem sane_change {f : Coil → Coil} (hlow : ∀ k, (f k).low = k.low) (hhigh : ∀ k, (f k).high = k.high) :
    Preserves Sane (change f) := by
  intro s hs
  rcases hfst : isFirst s.memory with e | first
  · have hfail : change f s = (.error e, s) := by
      change (Act.lift (isFirst s.memory) >>= fun b => _ : Act (Simulated Memory) PUnit) s = _
      rw [hfst]
      rfl
    rw [hfail]
    exact hs
  · rw [change_eq hfst]
    refine hs.put ?_ first
    rw [hlow, hhigh]
    exact hs.limits first

theorem sane_now : Preserves Sane (Clocked.now : Act (Simulated Memory) Float) :=
  fun _ hs => hs

theorem sane_answer (c : Coil) (m : Message) : Preserves Sane (answer c m) := by
  have hshown (c : Coil) (x : Float) : Preserves Sane (do return some (← shown c x)) := .bind (.lift _) fun _ => .lift _
  unfold answer
  split
  case h_8 =>
    have hmag : Preserves Sane (coil >>= fun c => do return some (← shown c c.magnet)) := by
      refine .bind (.bind (fun _ hs => hs) fun _ => .bind (.lift _) fun _ => .lift _) fun c => hshown c _
    exact .ite (.bind sane_now fun x => .bind (sane_change (fun _ => rfl) fun _ => rfl) fun _ => hmag) hmag
  case h_9 =>
    exact .bind sane_now fun x => .bind (sane_change (fun _ => rfl) fun _ => rfl) fun _ => hshown _ _
  case h_7 => exact .bind (.lift _) fun _ => .lift _
  case h_1 | h_2 => exact hshown _ _
  all_goals exact fun _ hs => hs

theorem sane_startSweep (c : Coil) (sweep : String) : Preserves Sane (Simulation.startSweep c sweep) :=
  .bind sane_now fun _ => sane_change (fun _ => rfl) fun _ => rfl

theorem sane_obey (hs : Sane s) {first : Bool} (hfst : isFirst s.memory = .ok first)
    (m : Message) : Sane (obey (s.memory.coil first) m s).2 := by
  have hmove {f : Coil → Coil} (hf : (f (s.memory.coil first)).low ≤ (f (s.memory.coil first)).high) :
      Sane ((change f >>= fun _ => pure (some Value.none) : Act (Simulated Memory) (Option Value)) s).2 := by
    rw [bind_of_ok (change_eq hfst f)]
    exact hs.put hf first
  have hlims := hs.limits first
  -- the response as a whole is named, so that its cases are told apart by the command and not by the argument
  generalize hact : obey (s.memory.coil first) m = act
  unfold obey at hact
  split at hact <;> subst hact
  case h_1 | h_2 =>
    refine of_lift_bind hs fun x _ => ?_
    split
    case isTrue hx => exact hmove hx
    case isFalse => exact hs
  case h_3 =>
    split
    · exact hmove hlims
    · exact hmove hlims
    · exact hs
  case h_4 => exact Preserves.bind (sane_startSweep _ _) (fun _ => .pure _) s hs
  case h_5 => exact ⟨hs.answers, hs.limits⟩
  case h_6 => exact hmove hlims
  case h_7 => exact of_lift_bind hs fun _ _ => hmove hlims
  all_goals exact hs

theorem sane_polish (x : Option Value) : Preserves Sane (polish x) := by
  cases x with
  | none => exact .lift _
  | some v => exact .bind (.lift _) fun _ => .lift _

theorem sane_respond (text : String) : Preserves Sane (respond text) := by
  intro s hs
  rcases hm : Message.ofText text with e | m
  · have hfail : respond text s = (.error e, s) := by
      rw [respond, hm]
      rfl
    rw [hfail]
    exact hs
  rcases hfst : isFirst s.memory with e | first
  · rw [respond_of_isFirst_error hm hfst]
    exact hs
  rw [respond_eq hm hfst]
  cases m.isQuery with
  | true => exact Preserves.bind (sane_answer _ m) sane_polish s hs
  | false =>
    have hobeyed := sane_obey hs hfst m
    rw [if_neg Bool.false_ne_true]
    rcases hobey : obey (s.memory.coil first) m s with ⟨e | x, t⟩
    · rw [hobey] at hobeyed
      rw [bind_of_error hobey]
      exact hobeyed
    · rw [hobey] at hobeyed
      rw [bind_of_ok hobey]
      exact sane_polish x t hobeyed

theorem sane_reset : Preserves Sane (LabBench.Simulation.reset : Act (Simulated Memory) PUnit) := by
  have hlims : (10.0 : Float) ≤ 20.0 := by decide +kernel
  intro s hs
  refine ⟨hs.answers, fun b => ?_⟩
  cases b <;> exact hlims

theorem sane_respondCommon (text : String) :
    Preserves Sane (Simulated.respondCommon text : Act (Simulated Memory) (Option Value)) := by
  unfold Simulated.respondCommon
  split
  case h_3 | h_4 => exact .bind sane_reset fun _ => .lift _
  all_goals exact .lift _

theorem sane_say (v : Value) (ending : String) :
    Preserves Sane (Simulated.say v ending : Act (Simulated Memory) PUnit) :=
  fun _ hs => ⟨hs.answers, hs.limits⟩

theorem sane_reaction (text : String) : Preserves Sane (reaction text) := by
  refine .bind (sane_respond text) fun response => ?_
  cases response with
  | some v => exact sane_say v _
  | none =>
    refine .bind (sane_respondCommon text) fun response => ?_
    cases response with
    | some v => exact sane_say v _
    | none => exact .lift _

theorem sane_reply : Preserves Sane reply := by
  intro s hs
  obtain ⟨memory, clock, dice, rolls, output, answers, log⟩ := s
  obtain rfl : answers = none := hs.answers
  cases output <;> exact hs

/-! ### Selection -/

/-- The supply is sane, and acts on the channel that is remembered if it acts on any. -/
structure Tuned (v : Value) (s : Simulated Memory) : Prop extends Sane s where
  selected : ∀ first, isFirst s.memory = .ok first → ∀ c, isSelected c v = true → first = (c == .one)

theorem Tuned.of_selected_eq {t : Simulated Memory} (h : Tuned v s) (ht : Sane t)
    (hsel : t.memory.selected = s.memory.selected) : Tuned v t where
  toSane := ht
  selected first hfst := by
    have hsame : isFirst t.memory = isFirst s.memory := by
      unfold isFirst
      rw [hsel]
    exact h.selected first (hsame.symm.trans hfst)

theorem keeps_selected_reaction (hm : Message.ofText text = .ok m) (h : ∀ first, Confined first (reaction text)) :
    Keeps (fun s : Simulated Memory => s.memory.selected) (reaction text) := by
  intro s
  rcases hfst : isFirst s.memory with e | first
  · have hfail : reaction text s = (.error e, s) := bind_of_error (respond_of_isFirst_error hm hfst)
    rw [hfail]
  · exact (h first s hfst).1

theorem keeps_selected_reply : Keeps (fun s : Simulated Memory => s.memory.selected) reply := by
  intro s
  obtain ⟨memory, clock, dice, rolls, output, answers, log⟩ := s
  cases output <;> cases answers <;> rfl

/-- Messages that do not change the selection keep the supply tuned. -/
theorem Tuned.received (h : Tuned v s)
    (hm : Message.ofText text = .ok m) (hconf : ∀ first, Confined first (reaction text)) :
    Tuned v (Simulated.receive text s).2 ∧ Tuned v (Simulated.query text s).2 := by
  have hnoted : Tuned v (Simulated.noted text s) := ⟨⟨h.answers, h.limits⟩, h.selected⟩
  have hkeeps := keeps_selected_reaction hm hconf
  refine ⟨hnoted.of_selected_eq (sane_reaction text _ hnoted.toSane) (hkeeps _), ?_⟩
  exact hnoted.of_selected_eq (Preserves.bind (sane_reaction text) (fun _ => sane_reply) _ hnoted.toSane)
    ((hkeeps.bind fun _ => keeps_selected_reply) _)

theorem Tuned.heard (h : Tuned v s) (htext : Scoped text) :
    Tuned v (Simulated.receive text s).2 ∧ Tuned v (Simulated.query text s).2 :=
  h.received htext.choose_spec.1 fun _ => htext.confined_reaction

/-- The supply is tuned to what is remembered at the desk. -/
abbrev InTune (d : Desk Settings (Minutes (Simulated Memory))) : Prop :=
  Tuned d.settings.selected d.line.line

variable {d : Desk Settings (Minutes (Simulated Memory))}

theorem inTune_question {c : Channel} {query : String} (hd : InTune d) (h : Scoped query) :
    InTune (question c query d).2 := by
  rw [question_eq]
  exact (hd.heard h).2

theorem inTune_order {c : Channel} {command argument : String} (hd : InTune d)
    (h : Scoped (command ++ " " ++ argument)) : InTune (order c command argument d).2 :=
  (hd.heard h).1

theorem inTune_askChannel : Preserves InTune (Desk.ask "chan?") := by
  refine .bind (fun d hd => (hd.received rfl fun first => ?_).2) fun _ => .pure _
  exact confined_reaction rfl (Or.inl rfl) (by decide) (by decide)

theorem eq_int_of_isSelected {c : Channel} (h : isSelected c v = true) : v = .int c.number := by
  cases v with
  | int n => rw [beq_iff_eq.mp h]
  | _ => cases h

theorem exists_choose (hs : Sane d.line.line) {first : Bool} (hfst : isFirst d.line.line.memory = .ok first)
    (hchk : checkChoice "channel value" channelChoices v = .ok ⟨⟩) :
    ∃ d', setChannel v d = (.ok ⟨⟩, d') ∧ InTune d' ∧ d'.settings.selected = v := by
  obtain ⟨s', hrecv, hrecd⟩ := receive_chan hfst v.display
  refine ⟨_, setChannel_of_write hchk (write_of_eq hrecv), ⟨⟨?_, ?_⟩, ?_⟩, rfl⟩
  · exact hrecd.answers.trans hs.answers
  · intro b
    change (s'.memory.coil b).low ≤ (s'.memory.coil b).high
    rw [hrecd.memory, Memory.coil_choose]
    exact hs.limits b
  · intro first' hfst' c hc
    have hint : v = .int c.number := eq_int_of_isSelected hc
    subst hint
    have hactive : Active c s'.memory := by
      rw [hrecd.memory]
      exact toInt_choose _ c
    exact (Except.ok.inj (hactive.isFirst_eq.symm.trans hfst')).symm

theorem receive_of_isFirst_error {e : Fault} (hm : Message.ofText text = .ok m) (h : isFirst s.memory = .error e) :
    Simulated.receive text s = (.error e, Simulated.noted text s) :=
  Simulated.receive_of_error (respond_of_isFirst_error (s := Simulated.noted text s) hm h)

theorem inTune_setChannel (v : Value) : Preserves InTune (setChannel v) := by
  intro d hd
  rcases hchk : checkChoice "channel value" channelChoices v with e | ⟨⟩
  · rw [setChannel_of_check_error hchk]
    exact hd
  rcases hfst : isFirst d.line.line.memory with e | first
  · have hwrite := write_of_eq (d := d) (receive_of_isFirst_error (ofText_chan v.display) hfst)
    rw [setChannel_of_write_error hchk hwrite]
    exact ⟨⟨hd.answers, hd.limits⟩, hd.selected⟩
  · obtain ⟨d', hset, hd', -⟩ := exists_choose hd.toSane hfst hchk
    rw [hset]
    exact hd'

theorem exists_select_active (hs : Sane d.line.line) {c : Channel} (hactive : Active c d.line.line.memory) :
    ∃ d', select c d = (.ok ⟨⟩, d') ∧ While InTune (some c) d' := by
  cases hc : isSelected c d.settings.selected with
  | true =>
    refine ⟨d, select_eq hc, while_some ⟨hs, fun first hfst c' hc' => ?_⟩ hc⟩
    rw [isSelected_unique hc' hc]
    exact (Except.ok.inj (hactive.isFirst_eq.symm.trans hfst)).symm
  | false =>
    obtain ⟨d', hset, hd', hsel⟩ := exists_choose hs hactive.isFirst_eq (checkChoice_number c)
    rw [select_of_not hc]
    exact ⟨d', hset, while_some hd' (hsel ▸ isSelected_number c)⟩

/-- After a restart the first channel is selected, unless the supply refused. -/
theorem brings_restart : Brings InTune (While InTune (some .one)) (Desk.write "*rst" >>= fun _ => select .one) := by
  intro d hd
  have hm : Message.ofText "*rst" = .ok ⟨["*rst"], "", false⟩ := rfl
  rcases hfst : isFirst d.line.line.memory with e | first
  · exact ensures_of_eq (bind_of_error (write_of_eq (receive_of_isFirst_error hm hfst))) nofun
      fun _ _ => ⟨⟨hd.answers, hd.limits⟩, hd.selected⟩
  obtain ⟨s', hrecv, hactive, -⟩ := receive_restart hfst
  have hsane : Sane (Simulated.receive "*rst" d.line.line).2 :=
    sane_reaction "*rst" (Simulated.noted "*rst" d.line.line) ⟨hd.answers, hd.limits⟩
  rw [hrecv] at hsane
  obtain ⟨d', hsel, hd'⟩ := exists_select_active (d := { d with line := {
    line := s', entries := d.line.entries ++ [⟨d.line.speaker, d.line.line, "*rst", none⟩] } }) hsane hactive
  exact ensures_of_eq_ok ((bind_of_ok (write_of_eq hrecv)).trans hsel) hd'

theorem kept_inTune : Kept (fun _ => True) InTune where
  remember c f d hd := by
    have hsel := selected_change d.settings c f
    exact ⟨hd.toSane, fun first hfst c' hc' => hd.selected first hfst c'
      ((congrArg (isSelected c') hsel).symm.trans hc')⟩
  sleep := .sleep fun _ _ hd => ⟨⟨hd.answers, hd.limits⟩, hd.selected⟩
  choose v _ := inTune_setChannel v
  askChannel := inTune_askChannel
  restarts := brings_restart
  question c query hqry d hd := inTune_question hd.1 hqry.1
  order c command argument hord d hd := inTune_order hd.1 hord.1
  switchHeater c v _ d hd := (While.preserves_switchHeater (fun _ h _ hd => inTune_question hd.1 h)
    (fun _ _ h _ hd => inTune_order hd.1 h) v d hd).1

/-! ### After the connection -/

theorem tuned_operate (name : String) {dice : List Float} {line : Simulated Memory}
    (hline : Simulated.start dice = .ok line) (ops : List Operation) :
    Tuned (operate name ops line).settings.selected (operate name ops line).line := by
  have hlims : (10.0 : Float) ≤ 20.0 := by decide +kernel
  have hstart : InTune { settings := {}, line := { line } } := by
    cases hline
    refine ⟨⟨rfl, fun b => ?_⟩, ?_⟩
    · cases b <;> exact hlims
    · rintro _ _ _ ⟨⟩
  have hops : ∀ op ∈ ops, op.Chooses fun _ => True := fun _ _ _ _ _ => trivial
  have hend := operate_kept kept_inTune trivial name hops hstart
  rw [← operate_withoutMinutes]
  exact hend

end LabBench.MagnetSupply
