import LabBench.Proofs.Magnet.Tuning
import LabBench.Proofs.Number.Binary
/-!
# Sweeps of a simulated supply

The current of a supply is changed by a sweep. A sweep ends at zero or at one of the two limits, so the limit on
the side of the sweep is moved to the wanted current first. The supply moves a limit only if the low one stays
below the high one, and does not say when it has refused. A caller therefore looks at the other limit and moves
it out of the way, but two currents that are close count as equal in this comparison, and not for the supply.

## Main results

* `setOutput_settles`
-/

namespace LabBench.MagnetSupply

open LabBench.MagnetSupply.Simulation Act Simulated List

/-! ### Speaking to the supply -/

def coilOf (c : Channel) (d : Desk Settings (Simulated Memory)) : Coil :=
  d.line.memory.coil (c == .one)

def isSweepOrder (text : String) : Bool :=
  match Message.ofText text with
  | .ok m => m.first == "sweep" && !m.isQuery
  | .error _ => false

def sweepsIn (log : List String) : List String :=
  log.filter isSweepOrder

theorem isSweepOrder_eq {text : String} {m : Message} (hm : Message.ofText text = .ok m) :
    isSweepOrder text = (m.first == "sweep" && !m.isQuery) := by
  rw [isSweepOrder, hm]

theorem sweepsIn_append {text : String} (h : isSweepOrder text = false) (log : List String) :
    sweepsIn (log ++ [text]) = sweepsIn log := by
  rw [sweepsIn, filter_append, filter_singleton, h]
  exact append_nil _

/-- A channel is selected, and the supply acts on it. -/
structure Poised (c : Channel) (d : Desk Settings (Simulated Memory)) : Prop extends Sane d.line where
  selected : isSelected c d.settings.selected = true
  first : isFirst d.line.memory = .ok (c == .one)

/-- Something was said for a channel. Its state is another one now, and some sweeps were started. -/
structure Heeded (c : Channel) (k : Coil) (sweeps : List String) (d d' : Desk Settings (Simulated Memory)) :
    Prop extends Poised c d' where
  settings : ∀ a, d'.settings.channel a = d.settings.channel a
  coil : coilOf c d' = k
  clock : d'.line.clock = d.line.clock
  sweeps : sweepsIn d'.line.log = sweepsIn d.line.log ++ sweeps

variable {c : Channel} {d d' d₁ d₂ : Desk Settings (Simulated Memory)} {k : Coil} {x : Float} {side : Side}
  {course : Course}

theorem heeded_self (h : Poised c d) : Heeded c (coilOf c d) [] d d :=
  ⟨h, fun _ => rfl, rfl, rfl, (append_nil _).symm⟩

theorem Heeded.trans {k' : Coil} {sweeps sweeps' : List String} (h : Heeded c k sweeps d d₁)
    (h' : Heeded c k' sweeps' d₁ d₂) : Heeded c k' (sweeps ++ sweeps') d d₂ where
  toPoised := h'.toPoised
  settings a := (h'.settings a).trans (h.settings a)
  coil := h'.coil
  clock := h'.clock.trans h.clock
  sweeps := by rw [h'.sweeps, h.sweeps, append_assoc]

theorem heeded_of_received (h : Poised c d) (hk : k.low ≤ k.high) {text : String} {s : Simulated Memory}
    (hs : Received text (d.line.memory.put (c == .one) k) d.line s) {sweeps : List String}
    (hsweeps : sweepsIn (d.line.log ++ [text]) = sweepsIn d.line.log ++ sweeps) :
    Heeded c k sweeps d { d with line := s } where
  answers := hs.answers.trans h.answers
  limits := by
    intro b
    change (s.memory.coil b).low ≤ (s.memory.coil b).high
    rw [hs.memory]
    exact (h.toSane.put hk (c == .one)).limits b
  selected := h.selected
  first := by
    change isFirst s.memory = _
    rw [hs.memory, isFirst_put]
    exact h.first
  settings _ := rfl
  coil := by
    change s.memory.coil (c == .one) = k
    rw [hs.memory, Memory.coil_put]
  clock := hs.clock
  sweeps := by
    change sweepsIn s.log = _
    rw [hs.log, hsweeps]

theorem exists_select_poised (hd : Tuned d.settings.selected d.line) {first : Bool}
    (hfst : isFirst d.line.memory = .ok first) (c : Channel) :
    ∃ d₁, select c d = (.ok ⟨⟩, d₁) ∧ Heeded c (coilOf c d) [] d d₁ := by
  cases hc : isSelected c d.settings.selected with
  | true =>
    refine ⟨d, select_eq hc, heeded_self ⟨hd.toSane, hc, ?_⟩⟩
    rw [hfst, hd.selected first hfst c hc]
  | false =>
    obtain ⟨s, hrecv, hrecd⟩ := receive_chan hfst (Value.int c.number).display
    obtain ⟨settings, status, line⟩ := d
    have hactive : Active c s.memory := by
      rw [hrecd.memory]
      exact toInt_choose _ c
    rw [select_of_not hc]
    refine ⟨_, setChannel_of_write (checkChoice_number c) (Desk.write_eq hrecv settings status),
      ⟨⟨?_, ?_⟩, isSelected_number c, hactive.isFirst_eq⟩, ?_, ?_, hrecd.clock, ?_⟩
    · exact hrecd.answers.trans hd.answers
    · intro b
      change (s.memory.coil b).low ≤ (s.memory.coil b).high
      rw [hrecd.memory, Memory.coil_choose]
      exact hd.limits b
    · intro a
      cases a <;> rfl
    · change s.memory.coil (c == .one) = line.memory.coil (c == .one)
      rw [hrecd.memory, Memory.coil_choose]
    · change sweepsIn s.log = sweepsIn line.log ++ []
      rw [hrecd.log, sweepsIn_append (isSweepOrder_eq (ofText_chan _)), append_nil]

/-! ### Readings -/

/-- What is read when the supply says a number for a channel. -/
def readAs (units : String) (k : Coil) (x : Float) : Outcome (Quantity Float) := do
  currentOf units (.text (heard Memory (← said k x)))

theorem ask_poised (hd : Poised c d) (q : Question) : ∃ d₁, askFor c q.text d =
        ((q.reply (coilOf c d) d.line.clock).map fun w => .text (heard Memory w), d₁) ∧
      Heeded c (q.note d.line.clock (coilOf c d)) [] d d₁ := by
  obtain ⟨s, hqry, hrecd⟩ := query_question hd.first hd.answers q
  have hlims : (q.note d.line.clock (coilOf c d)).low ≤ (q.note d.line.clock (coilOf c d)).high := by
    rcases q with _ | _ | _ <;> exact hd.limits _
  have hplain : isSweepOrder q.text = false := by
    rcases q with _ | (_ | _) | _ <;> decide +kernel
  have hsweeps : sweepsIn (d.line.log ++ [q.text]) = sweepsIn d.line.log ++ [] := by
    rw [sweepsIn_append hplain, append_nil]
  refine ⟨_, ?_, heeded_of_received hd hlims hrecd hsweeps⟩
  have hline : (Desk.onLine (Line.ask q.text) : Use (Simulated Memory) (Option String)) d =
      ((q.reply (coilOf c d) d.line.clock).map fun w => some (heard Memory w), { d with line := s }) :=
    Desk.onLine_eq hqry d.settings d.status
  rw [askFor, bind_of_ok (select_eq hd.selected)]
  refine (bind_lift_of_eq hline fun a => .ok (Value.ofAnswer a)).trans ?_
  cases q.reply (coilOf c d) d.line.clock <;> rfl

theorem current_poised (hd : Poised c d) {q : Question} (hq : q.reply (coilOf c d) d.line.clock = said (coilOf c d) x) :
    ∃ d₁, askCurrent c q.text d = (readAs (d.settings.channel c).units (coilOf c d) x, d₁) ∧
      Heeded c (q.note d.line.clock (coilOf c d)) [] d d₁ := by
  obtain ⟨d₁, hask, hheeded⟩ := ask_poised hd q
  refine ⟨d₁, ?_, hheeded⟩
  rw [hq] at hask
  refine (bind_lift_of_eq hask (currentOf (d.settings.channel c).units)).trans ?_
  unfold readAs
  cases said (coilOf c d) x <;> rfl

theorem output_poised (hd : Poised c d) : ∃ d₁, outputCurrent c d = (readAs (d.settings.channel c).units (coilOf c d)
        ((coilOf c d).ramp.at d.line.clock), d₁) ∧
      Heeded c ((coilOf c d).withOutput ((coilOf c d).ramp.at d.line.clock)) [] d d₁ :=
  current_poised hd (q := .output) rfl

def limitOf (c : Channel) : Side → Use (Simulated Memory) (Quantity Float)
  | .high => highLimit c
  | .low => lowLimit c

theorem limit_poised (hd : Poised c d) (side : Side) :
    ∃ d₁, limitOf c side d = (readAs (d.settings.channel c).units (coilOf c d) (side.limit (coilOf c d)), d₁) ∧
      Heeded c (coilOf c d) [] d d₁ := by
  cases side
  · exact current_poised hd (q := .limit .high) rfl
  · exact current_poised hd (q := .limit .low) rfl

/-! ### Orders -/

/-- The number that the supply hears of a current. -/
def heardAs (units : String) (v : Value) : Outcome Float := do
  heardNumber (← Quantity.toSettingIn units v (.real 1.0)).display

theorem move_limits (side : Side) {y : Float} (h : k.low ≤ k.high) : (side.move y k).low ≤ (side.move y k).high := by
  unfold Side.move
  split
  case isTrue hallows => cases side <;> exact hallows
  case isFalse => exact h

/-- A limit is moved, or stays if it cannot be moved. -/
theorem writeCurrent_eq_ok (hd : Poised c d) {v : Value} (h : writeCurrent c side.command v d = (.ok ⟨⟩, d')) :
    ∃ y, heardAs (d.settings.channel c).units v = .ok y ∧ Heeded c (side.move y (coilOf c d)) [] d d' := by
  have hset : (Act.lift (Quantity.toSettingIn (d.settings.channel c).units v (.real 1.0)) >>= fun x =>
    select c >>= fun _ => order c side.command x.display) d = (.ok ⟨⟩, d') := h
  obtain ⟨x, hx, hrest⟩ := lift_bind_eq_ok.mp hset
  rw [bind_of_ok (select_eq hd.selected)] at hrest
  have hwrite : (Desk.write (side.order x.display) : Use (Simulated Memory) PUnit) d = (.ok ⟨⟩, d') := hrest
  have hplain : isSweepOrder (side.order x.display) = false := by
    rw [isSweepOrder_eq (ofText_limit side x.display)]
    cases side <;> rfl
  rcases hy : heardNumber x.display with e | y
  · have hfail := Desk.write_eq (receive_limit_error hd.first side hy) d.settings d.status
    cases hfail.symm.trans hwrite
  · obtain ⟨s, hrecv, hrecd⟩ := receive_limit hd.first side hy
    cases (Desk.write_eq hrecv d.settings d.status).symm.trans hwrite
    refine ⟨y, ?_, heeded_of_received hd (move_limits side (hd.limits _)) hrecd ?_⟩
    · rw [heardAs]
      exact Outcome.bind_eq_ok.mpr ⟨x, hx, hy⟩
    · rw [sweepsIn_append hplain, append_nil]

theorem sweep_poised (hd : Poised c d) (course : Course) : ∃ d₁, setSweep c (.text course.word) d = (.ok ⟨⟩, d₁) ∧
      Heeded c (course.started d.line.clock (coilOf c d)) ["sweep " ++ course.word] d d₁ := by
  obtain ⟨s, hrecv, hrecd⟩ := receive_sweep hd.first course
  have hchk : checkChoice "sweep value" sweepChoices (.text course.word) = .ok ⟨⟩ := by
    rcases course with _ | _ | _ <;> rfl
  have hord : isSweepOrder ("sweep " ++ course.word) = true := by
    rcases course with _ | _ | _ <;> decide +kernel
  have hlims : (course.started d.line.clock (coilOf c d)).low ≤ (course.started d.line.clock (coilOf c d)).high :=
    hd.limits _
  refine ⟨{ d with line := s }, ?_, heeded_of_received hd hlims hrecd ?_⟩
  · refine (bind_of_ok (select_eq hd.selected)).trans ((lift_bind_of_ok hchk _ _).trans ?_)
    exact Desk.write_eq hrecv d.settings d.status
  · rw [sweepsIn, filter_append, filter_singleton, hord]
    rfl

/-! ### Waiting -/

/-- Nothing happened to a channel, except that its current was read and time passed. -/
structure Quiet (c : Channel) (d d' : Desk Settings (Simulated Memory)) : Prop extends Poised c d' where
  settings : ∀ a, d'.settings.channel a = d.settings.channel a
  coil : ∃ y, coilOf c d' = (coilOf c d).withOutput y
  sweeps : sweepsIn d'.line.log = sweepsIn d.line.log

theorem Quiet.trans (h : Quiet c d d₁) (h' : Quiet c d₁ d₂) : Quiet c d d₂ where
  toPoised := h'.toPoised
  settings a := (h'.settings a).trans (h.settings a)
  coil := by
    obtain ⟨y, hy⟩ := h'.coil
    obtain ⟨x, hx⟩ := h.coil
    exact ⟨y, by rw [hy, hx]; rfl⟩
  sweeps := h'.sweeps.trans h.sweeps

theorem Heeded.quiet {y : Float} (h : Heeded c ((coilOf c d).withOutput y) [] d d') : Quiet c d d' :=
  ⟨h.toPoised, h.settings, ⟨y, h.coil⟩, h.sweeps.trans (append_nil _)⟩

theorem Heeded.quiet_of_eq (h : Heeded c (coilOf c d) [] d d') : Quiet c d d' :=
  Heeded.quiet (y := (coilOf c d).output) h

theorem quiet_setTime (hd : Poised c d) (t : Float) : Quiet c d (Clocked.setTime t d) :=
  ⟨⟨⟨hd.answers, hd.limits⟩, hd.selected, hd.first⟩, fun _ => rfl, ⟨(coilOf c d).output, rfl⟩, rfl⟩

theorem quiet_sleep (hd : Poised c d) {v : Value} (h : Clocked.sleep v d = (.ok ⟨⟩, d')) : Quiet c d d' := by
  have hkept : Preserves (fun d' => Quiet c d d') (Clocked.sleep v) :=
    .sleep (fun t _ hquiet => hquiet.trans (quiet_setTime hquiet.toPoised t)) v
  exact hkept.apply h (heeded_self hd).quiet_of_eq

theorem readAs_withOutput (units : String) (k : Coil) (x y : Float) :
    readAs units (k.withOutput y) x = readAs units k x :=
  rfl

def stateOf (k : Coil) : Outcome String :=
  (spoken (.text k.sweep)).map (heard Memory)

theorem state_poised (hd : Poised c d) :
    ∃ d₁, sweep c d = (stateOf (coilOf c d), d₁) ∧ Heeded c (coilOf c d) [] d d₁ := by
  obtain ⟨d₁, hask, hheeded⟩ := ask_poised hd .sweep
  refine ⟨d₁, ?_, hheeded⟩
  refine (bind_lift_of_eq hask fun v => .ok v.display).trans ?_
  change (((spoken (.text (coilOf c d).sweep)).map fun w => Value.text (heard Memory w)) >>= _, d₁) = _
  unfold stateOf
  cases spoken (.text (coilOf c d).sweep) <;> rfl

def goalOf (c : Channel) : Course → Use (Simulated Memory) (Quantity Float)
  | .zero => inUnits c 0.0
  | .toward side => limitOf c side

def Simulation.Course.goal (units : String) (k : Coil) : Course → Outcome (Quantity Float)
  | zero => Quantity.make 0.0 units
  | toward side => readAs units k (side.limit k)

theorem goal_poised (hd : Poised c d) (course : Course) :
    ∃ d₁, goalOf c course d = (course.goal (d.settings.channel c).units (coilOf c d), d₁) ∧
      Heeded c (coilOf c d) [] d d₁ := by
  cases course with
  | zero => exact ⟨d, rfl, heeded_self hd⟩
  | toward side => exact limit_poised hd side

theorem sweepEnd?_description (c : Channel) (course : Course) :
    sweepEnd? c course.description = some (goalOf c course) := by
  rcases course with _ | _ | _ <;> rfl

/-- The current of the supply has come to the end of a sweep. -/
def Reached (c : Channel) (course : Course) (d : Desk Settings (Simulated Memory)) : Prop :=
  ∃ p q, readAs (d.settings.channel c).units (coilOf c d) ((coilOf c d).ramp.at d.line.clock) = .ok p ∧
    course.goal (d.settings.channel c).units (coilOf c d) = .ok q ∧ p.equal q = .ok true

theorem Quiet.stateOf_eq (h : Quiet c d d') : stateOf (coilOf c d') = stateOf (coilOf c d) := by
  obtain ⟨y, hy⟩ := h.coil
  rw [hy]
  rfl

theorem description_injective {course' : Course} (h : course.description = course'.description) : course = course' := by
  rcases course with _ | _ | _ <;> rcases course' with _ | _ | _ <;> first | rfl | exact absurd h (by decide)

theorem waitFor_eq_ok {limit : Nat} (hd : Poised c d) (hstate : stateOf (coilOf c d) = .ok course.description)
    (h : waitFor c (goalOf c course) limit course.description d = (.ok ⟨⟩, d')) :
    Quiet c d d' ∧ Reached c course d' := by
  -- in each round the sweep is still the same, so that the wait does not end by a pause
  induction limit generalizing d with
  | zero => cases h
  | succ limit ih =>
    have hpause : (course.description == "Pause") = false := by
      rcases course with _ | _ | _ <;> rfl
    obtain ⟨d₁, hout, hheeded₁⟩ := output_poised hd
    obtain ⟨d₂, hgoal, hheeded₂⟩ := goal_poised hheeded₁.toPoised course
    have hquiet : Quiet c d d₂ := hheeded₁.quiet.trans hheeded₂.quiet_of_eq
    rw [waitFor, hpause, if_neg Bool.false_ne_true] at h
    obtain ⟨p, hread, h⟩ := (bind_eq_ok_of_eq hout).mp h
    obtain ⟨q, hend, h⟩ := (bind_eq_ok_of_eq hgoal).mp h
    obtain ⟨b, heq, h⟩ := lift_bind_eq_ok.mp h
    cases b with
    | true =>
      cases h
      refine ⟨hquiet, p, q, ?_, ?_, heq⟩
      · rw [hheeded₂.settings, hheeded₁.settings, hheeded₂.coil, hheeded₁.coil, hheeded₂.clock, hheeded₁.clock,
          readAs_withOutput]
        exact hread
      · rw [hheeded₂.settings, hheeded₂.coil]
        exact hend
    | false =>
      obtain ⟨⟨⟩, d₃, hsleep, h⟩ := bind_eq_ok.mp h
      have hquiet₃ := hquiet.trans (quiet_sleep hheeded₂.toPoised hsleep)
      obtain ⟨d₄, hsweep, hheeded₄⟩ := state_poised hquiet₃.toPoised
      have hquiet₄ := hquiet₃.trans hheeded₄.quiet_of_eq
      obtain ⟨state, hsame, h⟩ := (bind_eq_ok_of_eq hsweep).mp h
      rw [hquiet₃.stateOf_eq, hstate] at hsame
      obtain rfl := Except.ok.inj hsame
      obtain ⟨hrest, hreach⟩ := ih hquiet₄.toPoised (hquiet₄.stateOf_eq.trans hstate) h
      exact ⟨hquiet₄.trans hrest, hreach⟩

theorem waitOnce_eq_ok (hd : Poised c d) (h : waitOnce c d = (.ok ⟨⟩, d')) :
    Quiet c d d' ∧ ∀ course : Course, stateOf (coilOf c d) = .ok course.description → Reached c course d' := by
  obtain ⟨d₁, hsweep, hheeded⟩ := state_poised hd
  have hquiet := hheeded.quiet_of_eq
  obtain ⟨state, hstate, h⟩ := (bind_eq_ok_of_eq hsweep).mp h
  by_cases hcourse : ∃ course : Course, state = course.description
  · obtain ⟨course, rfl⟩ := hcourse
    rw [sweepEnd?_description] at h
    obtain ⟨hrest, hreach⟩ := waitFor_eq_ok hquiet.toPoised (hquiet.stateOf_eq.trans hstate) h
    refine ⟨hquiet.trans hrest, fun course' hcourse' => ?_⟩
    rw [description_injective (Except.ok.inj (hcourse'.symm.trans hstate))]
    exact hreach
  · have hnone : sweepEnd? (β := Simulated Memory) c state = none :=
      sweepEnd?_eq_none c (fun hup => hcourse ⟨.toward .high, hup⟩) (fun hzero => hcourse ⟨.zero, hzero⟩)
        fun hdown => hcourse ⟨.toward .low, hdown⟩
    rw [hnone] at h
    cases h
    exact ⟨hquiet, fun course hcourse' => absurd ⟨course, Except.ok.inj (hstate.symm.trans hcourse')⟩ hcourse⟩

theorem waitForSweep_eq_ok (hd : Poised c d) (h : waitForSweep c d = (.ok ⟨⟩, d')) :
    Quiet c d d' ∧ ∀ course : Course, stateOf (coilOf c d) = .ok course.description → Reached c course d' := by
  have hlast {d₁ : Desk Settings (Simulated Memory)} (hquiet : Quiet c d d₁) (h : waitOnce c d₁ = (.ok ⟨⟩, d')) :
      Quiet c d d' ∧ ∀ course : Course, stateOf (coilOf c d) = .ok course.description → Reached c course d' := by
    obtain ⟨hrest, hreach⟩ := waitOnce_eq_ok hquiet.toPoised h
    exact ⟨hquiet.trans hrest, fun course hcourse => hreach course (hquiet.stateOf_eq.trans hcourse)⟩
  obtain ⟨⟨⟩, d₁, hfst, h⟩ := bind_eq_ok.mp h
  have hquiet₁ := (waitOnce_eq_ok hd hfst).1
  have hrest : (if (d₁.settings.channel c).sweepPause != 0.0 then
      Clocked.sleep (.real (d₁.settings.channel c).sweepPause) >>= fun _ => waitOnce c else waitOnce c) d₁ =
        (.ok ⟨⟩, d') := h
  split at hrest
  · obtain ⟨⟨⟩, d₂, hsleep, hrest⟩ := bind_eq_ok.mp hrest
    exact hlast (hquiet₁.trans (quiet_sleep hquiet₁.toPoised hsleep)) hrest
  · exact hlast hquiet₁ hrest

/-! ### Moving the limits -/

namespace Simulation.Side

/-- Whether a limit is in the way of a current, so that it has to be moved first. Currents that are close
count as equal. -/
def isBeyond (other goal : Quantity Float) : Side → Outcome Bool
  | high => other.greater goal
  | low => other.less goal

/-- Whether a current is on this side of a magnitude. -/
def Ahead (r : Quantity Float) (x : Float) : Side → Prop
  | high => r.magnitude < x
  | low => x < r.magnitude

variable {k : Coil} {y : Float}

theorem self_le_of_allows {side : Side} (h : side.Allows y k) : y ≤ y := by
  cases side
  · exact (Number.self_le_of_le h).2
  · exact (Number.self_le_of_le h).1

theorem allows_move_other (side : Side) (hk : k.low ≤ k.high) (hy : y ≤ y) : side.Allows y (side.other.move y k) := by
  obtain ⟨hlow, hhigh⟩ := Number.self_le_of_le hk
  unfold move
  split
  case isTrue => cases side <;> exact hy
  case isFalse hrefused =>
    cases side
    · exact Number.le_of_le_of_le hk (Number.le_of_not_le_of_comparable hy hhigh hrefused)
    · exact Number.le_of_le_of_le (Number.le_of_not_le_of_comparable hlow hy hrefused) hk

theorem limit_move_other (side : Side) : side.limit (side.other.move y k) = side.limit k := by
  unfold move
  split
  · cases side <;> rfl
  · rfl

/-- Where a limit is after it was moved, possibly after the other one. -/
theorem limit_move (side : Side) (hk : k.low ≤ k.high) (b : Bool) :
    side.limit (side.move y (if b then side.other.move y k else k)) =
      if y ≤ y ∧ (b = true ∨ side.Allows y k) then y else side.limit k := by
  have hmove (k : Coil) : side.limit (side.move y k) = if side.Allows y k then y else side.limit k := by
    unfold move
    split
    · cases side <;> rfl
    · rfl
  rw [hmove]
  cases b with
  | true =>
    rw [if_pos rfl, limit_move_other]
    by_cases hy : y ≤ y
    · rw [if_pos (allows_move_other side hk hy), if_pos ⟨hy, Or.inl rfl⟩]
    · rw [if_neg (mt self_le_of_allows hy), if_neg (mt And.left hy)]
  | false =>
    rw [if_neg Bool.false_ne_true]
    by_cases hallows : side.Allows y k
    · rw [if_pos hallows, if_pos ⟨self_le_of_allows hallows, Or.inr hallows⟩]
    · rw [if_neg hallows, if_neg]
      rintro ⟨-, hb | hb⟩
      · cases hb
      · exact hallows hb

end Simulation.Side

/-- The limits are set for a sweep toward one of them, which starts then. -/
def approach (c : Channel) (side : Side) (goal : Quantity Float) : Use (Simulated Memory) PUnit := do
  if ← side.isBeyond (← limitOf c side.other) goal then writeCurrent c side.other.command (.quantity goal)
  writeCurrent c side.command (.quantity goal)
  setSweep c (.text (Course.toward side).word)

theorem startSweep_eq (c : Channel) (x : Float) : (startSweep c x : Use (Simulated Memory) PUnit) =
    if x == 0.0 then setSweep c (.text Course.zero.word)
    else outputCurrent c >>= fun r =>
      if r.magnitude < x then inUnits c x >>= approach c .high
      else outputCurrent c >>= fun r => if x < r.magnitude then inUnits c x >>= approach c .low else pure ⟨⟩ :=
  rfl

theorem approach_eq_ok (hd : Poised c d) {goal : Quantity Float} (h : approach c side goal d = (.ok ⟨⟩, d')) :
    ∃ other b y, readAs (d.settings.channel c).units (coilOf c d) (side.other.limit (coilOf c d)) = .ok other ∧
      side.isBeyond other goal = .ok b ∧ heardAs (d.settings.channel c).units (.quantity goal) = .ok y ∧
      Heeded c ((Course.toward side).started d.line.clock
        (side.move y (if b then side.other.move y (coilOf c d) else coilOf c d)))
        ["sweep " ++ (Course.toward side).word] d d' := by
  -- the limit on the side of the sweep is moved, and the sweep starts
  have hstart {k : Coil} {d₁ : Desk Settings (Simulated Memory)} (hd₁ : Heeded c k [] d d₁)
      (h : (writeCurrent c side.command (.quantity goal) >>= fun _ =>
        setSweep c (.text (Course.toward side).word)) d₁ = (.ok ⟨⟩, d')) :
      ∃ y, heardAs (d.settings.channel c).units (.quantity goal) = .ok y ∧
        Heeded c ((Course.toward side).started d.line.clock (side.move y k))
          ["sweep " ++ (Course.toward side).word] d d' := by
    obtain ⟨⟨⟩, d₂, hlim, h⟩ := bind_eq_ok.mp h
    obtain ⟨y, hy, hd₂⟩ := writeCurrent_eq_ok hd₁.toPoised hlim
    obtain ⟨d₃, hsweep, hd₃⟩ := sweep_poised hd₂.toPoised (.toward side)
    obtain rfl := congrArg Prod.snd (hsweep.symm.trans h)
    rw [hd₁.settings] at hy
    rw [hd₁.coil] at hd₂
    rw [hd₂.coil, hd₂.clock, hd₁.clock] at hd₃
    exact ⟨y, hy, (hd₁.trans hd₂).trans hd₃⟩
  obtain ⟨d₁, hoth, hd₁⟩ := limit_poised hd side.other
  obtain ⟨other, hread, h⟩ := (bind_eq_ok_of_eq hoth).mp h
  obtain ⟨b, hb, h⟩ := lift_bind_eq_ok.mp h
  cases b with
  | false =>
    obtain ⟨y, hy, hheeded⟩ := hstart hd₁ h
    exact ⟨other, false, y, hread, hb, hy, hheeded⟩
  | true =>
    obtain ⟨⟨⟩, d₂, hlim, h⟩ := bind_eq_ok.mp h
    obtain ⟨y, hy, hd₂⟩ := writeCurrent_eq_ok hd₁.toPoised hlim
    rw [hd₁.settings] at hy
    rw [hd₁.coil] at hd₂
    obtain ⟨y', hy', hheeded⟩ := hstart (hd₁.trans hd₂) h
    obtain rfl := Except.ok.inj (hy.symm.trans hy')
    exact ⟨other, true, y, hread, hb, hy, hheeded⟩

theorem inUnits_bind_eq_ok {f : Quantity Float → Use (Simulated Memory) PUnit}
    (h : (inUnits c x >>= f) d = (.ok ⟨⟩, d')) :
    ∃ q, Quantity.make x (d.settings.channel c).units = .ok q ∧ f q d = (.ok ⟨⟩, d') :=
  lift_bind_eq_ok.mp h

theorem startSweep_eq_ok (hd : Poised c d) (h : startSweep c x d = (.ok ⟨⟩, d')) :
    ((x == 0.0) = true → Heeded c (Course.zero.started d.line.clock (coilOf c d)) ["sweep zero"] d d') ∧
    ((x == 0.0) = false → ∃ r,
      readAs (d.settings.channel c).units (coilOf c d) ((coilOf c d).ramp.at d.line.clock) = .ok r ∧
      (∀ side : Side, side.Ahead r x → ∃ goal d₁, Quantity.make x (d.settings.channel c).units = .ok goal ∧
        Heeded c ((coilOf c d).withOutput ((coilOf c d).ramp.at d.line.clock)) [] d d₁ ∧
        approach c side goal d₁ = (.ok ⟨⟩, d')) ∧ ((∀ side : Side, ¬side.Ahead r x) → Quiet c d d')) := by
  rw [startSweep_eq] at h
  cases hx : (x == 0.0) with
  | true =>
    rw [hx, if_pos rfl] at h
    obtain ⟨d₁, hsweep, hd₁⟩ := sweep_poised hd .zero
    obtain rfl := congrArg Prod.snd (hsweep.symm.trans h)
    refine ⟨fun _ => hd₁, fun hne => ?_⟩
    cases hne
  | false =>
    rw [hx, if_neg Bool.false_ne_true] at h
    refine ⟨fun hzero => absurd hzero Bool.false_ne_true, fun _ => ?_⟩
    obtain ⟨d₁, hout, hd₁⟩ := output_poised hd
    obtain ⟨r, hr, h⟩ := (bind_eq_ok_of_eq hout).mp h
    refine ⟨r, hr, ?_⟩
    by_cases hup : r.magnitude < x
    · rw [if_pos hup] at h
      obtain ⟨goal, hgoal, h⟩ := inUnits_bind_eq_ok h
      rw [hd₁.settings] at hgoal
      refine ⟨fun side hside => ?_, fun hnone => absurd hup (hnone .high)⟩
      cases side with
      | high => exact ⟨goal, d₁, hgoal, hd₁, h⟩
      | low => exact absurd hside (Number.not_gt_of_lt hup)
    · -- the current is read once more, with the same result
      rw [if_neg hup] at h
      obtain ⟨d₂, hagain, hd₂⟩ := output_poised hd₁.toPoised
      obtain ⟨r', hr', h⟩ := (bind_eq_ok_of_eq hagain).mp h
      rw [hd₁.settings, hd₁.coil, hd₁.clock, readAs_withOutput] at hr'
      obtain rfl := Except.ok.inj (hr.symm.trans hr')
      rw [hd₁.coil, hd₁.clock] at hd₂
      have hheeded : Heeded c ((coilOf c d).withOutput ((coilOf c d).ramp.at d.line.clock)) [] d d₂ := hd₁.trans hd₂
      by_cases hdown : x < r.magnitude
      · rw [if_pos hdown] at h
        obtain ⟨goal, hgoal, h⟩ := inUnits_bind_eq_ok h
        rw [hheeded.settings] at hgoal
        refine ⟨fun side hside => ?_, fun hnone => absurd hdown (hnone .low)⟩
        cases side with
        | high => exact absurd hside hup
        | low => exact ⟨goal, d₂, hgoal, hheeded, h⟩
      · rw [if_neg hdown] at h
        cases h
        refine ⟨fun side hside => ?_, fun _ => hheeded.quiet⟩
        cases side with
        | high => exact absurd hside hup
        | low => exact absurd hside hdown

/-! ### The first message -/

/-- A supply that does not act on any channel refuses what is said for a channel. -/
theorem select_bind_ne_ok {α : Type} {e : Fault} (he : isFirst d.line.memory = .error e)
    {act : Use (Simulated Memory) α} (hact : ∀ a d', act d ≠ (.ok a, d')) (a : α)
    (d' : Desk Settings (Simulated Memory)) :
    (select c >>= fun _ => act) d ≠ (.ok a, d') := by
  intro h
  cases hc : isSelected c d.settings.selected with
  | true =>
    rw [bind_of_ok (select_eq hc)] at h
    exact hact a d' h
  | false =>
    have hwrite := Desk.write_eq (receive_of_isFirst_error (ofText_chan (Value.int c.number).display) he)
      d.settings d.status
    have hfail := (select_of_not hc).trans (setChannel_of_write_error (checkChoice_number c) hwrite)
    rw [bind_of_error hfail] at h
    cases h

/-- A sweep cannot be started unless the supply acts on some channel. -/
theorem exists_first_of_startSweep (h : startSweep c x d = (.ok ⟨⟩, d')) :
    ∃ first, isFirst d.line.memory = .ok first := by
  rcases hfst : isFirst d.line.memory with e | first
  · exfalso
    rw [startSweep_eq] at h
    split at h
    · refine select_bind_ne_ok hfst (fun u d' hsweep => ?_) _ _ h
      have hmsg : Message.ofText "sweep zero" = .ok ⟨["sweep"], "zero", false⟩ := rfl
      have hfail := Desk.write_eq (receive_of_isFirst_error hmsg hfst) d.settings d.status
      obtain ⟨-, -, hwrite⟩ := lift_bind_eq_ok.mp hsweep
      cases hfail.symm.trans hwrite
    · obtain ⟨r, d₁, hout, -⟩ := bind_eq_ok.mp h
      obtain ⟨answer, d₂, hask, -⟩ := bind_eq_ok.mp (show (askFor c "iout?" >>= fun v =>
        Act.lift (currentOf (d.settings.channel c).units v)) d = _ from hout)
      refine select_bind_ne_ok hfst (fun v d' hquestion => ?_) _ _ hask
      have hmsg : Message.ofText "iout?" = .ok ⟨["iout"], "", true⟩ := rfl
      have hqry : Simulated.query "iout?" d.line = (.error e, Simulated.noted "iout?" d.line) :=
        bind_of_error (receive_of_isFirst_error hmsg hfst)
      have hfail := Desk.onLine_eq hqry d.settings d.status
      obtain ⟨v, d₃, hline, -⟩ := bind_eq_ok.mp (show (Desk.ask "iout?" : Use (Simulated Memory) Value) d = _
        from hquestion)
      cases hfail.symm.trans hline
  · exact ⟨first, rfl⟩

section

variable (hsel : select c d = (.ok ⟨⟩, d₁))

include hsel

theorem select_bind_of_select {α : Type}
    (hc : isSelected c d₁.settings.selected = true) {f : PUnit → Use (Simulated Memory) α} :
    (select c >>= f) d = (select c >>= f) d₁ := by
  rw [bind_of_ok hsel, bind_of_ok (select_eq hc)]

theorem outputCurrent_of_select (hd₁ : Heeded c (coilOf c d) [] d d₁) : outputCurrent c d = outputCurrent c d₁ := by
  change (askFor c "iout?" >>= fun v => Act.lift (currentOf (d.settings.channel c).units v)) d =
    (askFor c "iout?" >>= fun v => Act.lift (currentOf (d₁.settings.channel c).units v)) d₁
  rw [hd₁.settings]
  exact Act.bind_congr (select_bind_of_select hsel hd₁.selected) fun _ _ _ => rfl

/-- Once a channel is selected, a sweep starts as if it had been selected before. -/
theorem startSweep_of_select (hd₁ : Heeded c (coilOf c d) [] d d₁)
    (x : Float) : startSweep c x d = startSweep c x d₁ := by
  rw [startSweep_eq]
  split
  · exact select_bind_of_select hsel hd₁.selected
  · exact Act.bind_congr (outputCurrent_of_select hsel hd₁) fun _ _ _ => rfl

end

/-! ### Changes of the current -/

/-- A sweep was started, and the current that can be read is the one at its end. -/
structure Swept (c : Channel) (course : Course) (d d' : Desk Settings (Simulated Memory)) : Prop where
  sweeps : sweepsIn d'.line.log = sweepsIn d.line.log ++ ["sweep " ++ course.word]
  reached : ∃ p q, (outputCurrent c d').1 = .ok p ∧
    course.goal (d'.settings.channel c).units (coilOf c d') = .ok q ∧ p.equal q = .ok true

theorem stateOf_started (course : Course) (time : Float) (k : Coil) :
    stateOf (course.started time k) = .ok course.description := by
  have hplain : without " kG" course.description = course.description := by
    rcases course with _ | _ | _ <;> decide +kernel
  have hheard : heard Memory course.description = course.description := by
    rcases course with _ | _ | _ <;> decide +kernel
  change (spoken (.text course.description)).map (heard Memory) = _
  rw [spoken_of_without hplain, Except.map, hheard]

theorem swept_of_heeded {time : Float} (h : Heeded c (course.started time k) ["sweep " ++ course.word] d d₁)
    (hwait : waitForSweep c d₁ = (.ok ⟨⟩, d')) : Swept c course d d' := by
  obtain ⟨hquiet, hreach⟩ := waitForSweep_eq_ok h.toPoised hwait
  obtain ⟨p, q, hp, hq, heq⟩ := hreach course (by rw [h.coil, stateOf_started])
  obtain ⟨d₂, hout, -⟩ := output_poised hquiet.toPoised
  refine ⟨hquiet.sweeps.trans h.sweeps, p, q, ?_, hq, heq⟩
  rw [hout]
  exact hp

/-- Where the sweep toward a number ends: at the number, as the supply hears it, if the limit on this side could
be moved there. That is so if the other limit was not past it, or was seen to be in the way and moved first.
Otherwise the limit is where it was. -/
def Aimed (c : Channel) (side : Side) (x : Float) (d d' : Desk Settings (Simulated Memory)) : Prop :=
  ∃ goal other b y, Quantity.make x (d.settings.channel c).units = .ok goal ∧
    readAs (d.settings.channel c).units (coilOf c d) (side.other.limit (coilOf c d)) = .ok other ∧
    side.isBeyond other goal = .ok b ∧ heardAs (d.settings.channel c).units (.quantity goal) = .ok y ∧
    side.limit (coilOf c d') = if y ≤ y ∧ (b = true ∨ side.Allows y (coilOf c d)) then y else side.limit (coilOf c d)

theorem limit_withOutput (side : Side) (k : Coil) (y : Float) : side.limit (k.withOutput y) = side.limit k := by
  cases side <;> rfl

theorem limit_started (side : Side) (course : Course) (time : Float) (k : Coil) :
    side.limit (course.started time k) = side.limit k := by
  cases side <;> rfl

theorem aimed_of_approach {z : Float} {goal : Quantity Float} (hd : Sane d.line)
    (hgoal : Quantity.make x (d.settings.channel c).units = .ok goal)
    (hd₁ : Heeded c ((coilOf c d).withOutput z) [] d d₁) (happroach : approach c side goal d₁ = (.ok ⟨⟩, d₂))
    (hwait : waitForSweep c d₂ = (.ok ⟨⟩, d')) : Swept c (.toward side) d d' ∧ Aimed c side x d d' := by
  obtain ⟨other, b, y, hoth, hb, hy, hd₂⟩ := approach_eq_ok hd₁.toPoised happroach
  obtain ⟨hquiet, -⟩ := waitForSweep_eq_ok hd₂.toPoised hwait
  obtain ⟨w, hw⟩ := hquiet.coil
  rw [hd₁.settings, hd₁.coil, limit_withOutput, readAs_withOutput] at hoth
  rw [hd₁.settings] at hy
  -- what was read last does not matter for the limits
  have hmoved : side.move y (if b then side.other.move y ((coilOf c d).withOutput z) else (coilOf c d).withOutput z) =
      (side.move y (if b then side.other.move y (coilOf c d) else coilOf c d)).withOutput z := by
    cases b
    · exact move_withOutput side y z _
    · rw [if_pos rfl, if_pos rfl, move_withOutput, move_withOutput]
  refine ⟨swept_of_heeded (hd₁.trans hd₂) hwait, goal, other, b, y, hgoal, hoth, hb, hy, ?_⟩
  rw [hw, hd₂.coil, limit_withOutput, limit_started, hd₁.coil, hmoved, limit_withOutput]
  exact side.limit_move (hd.limits _) b

theorem numberOf_snd (c : Channel) (v : Value) (d : Desk Settings (Simulated Memory)) : (numberOf c v d).2 = d := by
  change ((Act.lift (Quantity.toSettingIn (d.settings.channel c).units v (.real 1.0)) >>= fun w =>
    Act.lift w.toFloat : Use (Simulated Memory) Float) d).2 = d
  cases Quantity.toSettingIn (d.settings.channel c).units v (.real 1.0) <;> rfl

/-- How the current is changed to a number in the unit of the channel. The sweep is chosen by the magnitude of the
current in base units: a number of thousands of gauss is compared with a number of teslas. -/
structure Settled (c : Channel) (x : Float) (d d' : Desk Settings (Simulated Memory)) : Prop where
  zero : (x == 0.0) = true → Swept c .zero d d'
  other : (x == 0.0) = false → ∃ r, (outputCurrent c d).1 = .ok r ∧
    (∀ side : Side, side.Ahead r x → Swept c (.toward side) d d' ∧ Aimed c side x d d') ∧
    ((∀ side : Side, ¬side.Ahead r x) →
      sweepsIn d'.line.log = sweepsIn d.line.log ∧ ∃ y, coilOf c d' = (coilOf c d).withOutput y)

/-- When a change of the current is over, the current is the one at the end of the sweep, which goes up exactly if the
magnitude of the current was below the number, and down exactly if it was above. It ends at the number unless the
other limit was in the way, and too close to be moved. -/
theorem setOutput_settles (name : String) {dice : List Float} {line : Simulated Memory}
    (hline : Simulated.start dice = .ok line) (ops : List Operation) {v : Value}
    (hd : operate name ops line = d) (h : setOutput c v d = (.ok ⟨⟩, d')) :
    ∃ x, (numberOf c v d).1 = .ok x ∧ Settled c x d d' := by
  have htuned : Tuned d.settings.selected d.line := hd ▸ tuned_operate name hline ops
  obtain ⟨x, d₀, hnumber, h⟩ := Act.bind_eq_ok.mp h
  have hsame : d₀ = d := (congrArg Prod.snd hnumber).symm.trans (numberOf_snd c v d)
  rw [hsame] at h
  obtain ⟨⟨⟩, d₂, hstart, hwait⟩ := Act.bind_eq_ok.mp h
  obtain ⟨first, hfirst⟩ := exists_first_of_startSweep hstart
  obtain ⟨d₁, hselect, hd₁⟩ := exists_select_poised htuned hfirst c
  rw [startSweep_of_select hselect hd₁] at hstart
  obtain ⟨hzero, hother⟩ := startSweep_eq_ok hd₁.toPoised hstart
  refine ⟨x, congrArg Prod.fst hnumber, fun hx => ?_, fun hx => ?_⟩
  · exact swept_of_heeded (hd₁.trans (hzero hx)) hwait
  · obtain ⟨r, hr, hsides, hnone⟩ := hother hx
    obtain ⟨d₃, houtput, -⟩ := output_poised hd₁.toPoised
    refine ⟨r, ?_, fun side hside => ?_, fun hnot => ?_⟩
    · rw [outputCurrent_of_select hselect hd₁, houtput]
      exact hr
    · obtain ⟨goal, d₄, hgoal, hd₄, happroach⟩ := hsides side hside
      rw [hd₁.settings] at hgoal
      rw [hd₁.coil] at hd₄
      exact aimed_of_approach htuned.toSane hgoal (hd₁.trans hd₄) happroach hwait
    · have hquiet := (hd₁.quiet_of_eq.trans (hnone hnot)).trans (waitForSweep_eq_ok (hnone hnot).toPoised hwait).1
      exact ⟨hquiet.sweeps, hquiet.coil⟩

def atRest : Simulated Memory :=
  { memory := LabBench.Simulation.blank }

def amperes (x : Float) : Value :=
  ((Quantity.make x "A").map Value.quantity).toOption.getD .none

/-- The limits of a supply at rest are ten and twenty. A number just below ten is too close to the lower limit for
this limit to be moved, but below it, so that the upper limit is not moved there. The sweep ends at twenty. -/
theorem setOutput_belowTen : ∃ d d' : Desk Settings (Simulated Memory),
    Simulated.start [] = .ok atRest ∧ operate "Model4G" [.set ["channel1"] "units" (.text "A")] atRest = d ∧
      setOutput .one (amperes 9.9999) d = (.ok ⟨⟩, d') ∧
      (∃ x, (numberOf .one (amperes 9.9999) d).1 = .ok x ∧ Settled .one x d d') ∧
      ((coilOf .one d').high == 20.0) = true := by
  have hrun : ∀ r, r = setOutput .one (amperes 9.9999)
      (operate "Model4G" [.set ["channel1"] "units" (.text "A")] atRest) →
      (r.1.isOk && (coilOf .one r.2).high == 20.0) = true := by
    rintro _ rfl
    decide +kernel
  generalize hd : operate "Model4G" [.set ["channel1"] "units" (.text "A")] atRest = d at hrun ⊢
  rcases hset : setOutput .one (amperes 9.9999) d with ⟨e | ⟨⟩, d'⟩
  · cases hrun _ hset.symm
  · have hline : Simulated.start [] = .ok atRest := rfl
    have hhigh := hrun _ hset.symm
    exact ⟨d, d', hline, rfl, hset, setOutput_settles "Model4G" hline _ hd hset, hhigh⟩

end LabBench.MagnetSupply
