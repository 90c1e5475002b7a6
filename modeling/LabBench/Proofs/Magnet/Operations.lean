import LabBench.Proofs.Magnet.Minutes
import Mathlib.Data.List.Forall2
/-!
# Operations on a supply

Everything on the panels of a supply and of its channels is composed of the operations that speak. A sequence
of operations goes on after a fault, as somebody at the desk would.
-/

namespace LabBench.MagnetSupply

open List

variable {β α γ : Type} [Line β] {chosen : Value → Prop} {o : Option Channel} {act' : Use β α}
  {P : Desk Settings (Minutes β) → Prop}

/-- An operation that is composed, with minutes and without. -/
abbrev ComposedOn (β : Type) [Line β] (chosen : Value → Prop) {α : Type}
    (act : ∀ {δ : Type} [Line δ] [Attentive δ], Use δ α) : Prop :=
  Composed chosen none (act : Use (Minutes β) α) (act : Use β α)

/-! ### Building blocks -/

theorem Composed.ite {p : Prop} [Decidable p] {act₁ act₂ : Use (Minutes β) α} {act₁' act₂' : Use β α}
    (h₁ : Composed chosen o act₁ act₁') (h₂ : Composed chosen o act₂ act₂') :
    Composed chosen o (if p then act₁ else act₂) (if p then act₁' else act₂') := by
  split
  · exact h₁
  · exact h₂

theorem Composed.map {act : Use (Minutes β) α} (h : Composed chosen o act act') (f : α → γ) :
    Composed chosen o (act >>= fun a => pure (f a)) (act' >>= fun a => pure (f a)) :=
  h.bind fun _ => .lift o _

theorem Composed.forM {xs : List γ} {act : γ → Use (Minutes β) PUnit} {act' : γ → Use β PUnit}
    (h : ∀ x, Composed chosen o (act x) (act' x)) : Composed chosen o (xs.forM act) (xs.forM act') := by
  induction xs with
  | nil => exact .lift o _
  | cons x xs ih => exact (h x).bind fun _ => ih

theorem Composed.repeatUntil {body : Use (Minutes β) (Option α)} {body' : Use β (Option α)}
    (h : Composed chosen o body body') (limit : Nat) :
    Composed chosen o (Act.repeatUntil body limit) (Act.repeatUntil body' limit) := by
  induction limit with
  | zero => exact .lift o _
  | succ limit ih =>
    refine h.bind fun r => ?_
    cases r with
    | none => exact ih
    | some a => exact .lift o _

theorem Composed.checked {what : String} {choices : List Value} {v : Value} {act : Use (Minutes β) α}
    (h : checkChoice what choices v = .ok ⟨⟩ → Composed chosen o act act') :
    Composed chosen o (Act.lift (checkChoice what choices v) >>= fun _ => act)
      (Act.lift (checkChoice what choices v) >>= fun _ => act') := by
  cases hchk : checkChoice what choices v with
  | error e => exact .lift o (.error e)
  | ok u => exact h hchk

/-! ### Direct controls -/

section Controls

variable (c : Channel) (v : Value)

theorem composed_askFor {query : String} (h : Harmless query) : ComposedOn β chosen (askFor c query) :=
  .spoken (.question c h)

theorem composed_askCurrent {query : String} (h : Harmless query) : ComposedOn β chosen (askCurrent c query) :=
  .bind (.consult _ _) fun _ => .bind (composed_askFor c h) fun _ => .lift _ _

theorem composed_magnetCurrent : ComposedOn β chosen (magnetCurrent c) :=
  composed_askCurrent c (harmless_question "imag" (by decide))

theorem composed_outputCurrent : ComposedOn β chosen (outputCurrent c) :=
  composed_askCurrent c (harmless_question "iout" (by decide))

theorem composed_highLimit : ComposedOn β chosen (highLimit c) :=
  composed_askCurrent c (harmless_question "ulim" (by decide))

theorem composed_lowLimit : ComposedOn β chosen (lowLimit c) :=
  composed_askCurrent c (harmless_question "llim" (by decide))

theorem composed_writeCurrent {command : String} (h : command ∈ scopedCommands) (hne : command ≠ "pshtr") :
    ComposedOn β chosen (writeCurrent c command v) :=
  .bind (.consult _ _) fun _ => .bind (.lift _ _) fun _ => .spoken (.order c command _ h hne)

theorem composed_setHighLimit : ComposedOn β chosen (setHighLimit c v) :=
  composed_writeCurrent c v (by decide) (by decide)

theorem composed_setLowLimit : ComposedOn β chosen (setLowLimit c v) :=
  composed_writeCurrent c v (by decide) (by decide)

theorem composed_sweep : ComposedOn β chosen (sweep c) :=
  .bind (composed_askFor c (harmless_question "sweep" (by decide))) fun _ => .lift _ _

theorem composed_setSweep : ComposedOn β chosen (setSweep c v) :=
  .spoken (.bind (.lift _ _) fun _ => .order c "sweep" _ (by decide) (by decide))

theorem composed_rate (range : Nat) : ComposedOn β chosen (rate c range) :=
  .bind (composed_askFor c (harmless_rate range)) fun _ => .bind (.lift _ _) fun _ =>
    .bind (.lift _ _) fun _ => .lift _ _

theorem composed_setRate (range : Nat) : ComposedOn β chosen (setRate c range v) :=
  .bind (.lift _ _) fun _ => .spoken (.order c "rate" _ (by decide) (by decide))

theorem composed_putUnits : Composed (β := β) chosen (some c) (putUnits c v) (putUnits c v) :=
  .bind (.lift _ _) fun _ => .bind (.order c "units" _ (by decide) (by decide)) fun _ => .remember _ _ _

theorem composed_setUnits : ComposedOn β chosen (setUnits c v) :=
  .spoken (composed_putUnits c v)

theorem composed_units : ComposedOn β chosen (units c) :=
  .spoken (.bind (.reselect c) fun _ => .bind (.question c (harmless_question "units" (by decide)))
    fun _ => .bind (.lift _ _) fun _ => .bind (.consult _ _) fun _ =>
      .ite (.bind (.bind (.select c) fun _ => composed_putUnits c _) fun _ => .lift _ _) (.lift _ _))

theorem composed_heater : ComposedOn β chosen (heater c) := by
  refine .spoken (.bind (.repeatUntil ?_ _) fun x => ?_)
  · exact .bind (.question c (harmless_question "pshtr" (by decide))) fun answer => .bind (.lift _ _) fun x =>
      .ite (.bind (.sleep _ _) fun _ => .lift _ _) (.lift _ _)
  · exact .ite (.lift _ _) (.ite (.lift _ _) (.lift _ _))

theorem composed_isSynced : ComposedOn β chosen (isSynced c) :=
  .bind (composed_magnetCurrent c) fun _ => .bind (composed_outputCurrent c) fun _ => .lift _ _

theorem composed_setHeater : ComposedOn β chosen (setHeater c v) :=
  .spoken (.checked fun hv => .bind (.switchHeater c hv) fun _ => .bind (.consult _ _) fun _ =>
    .ite (.sleep _ _) (.lift _ _))

/-! ### Sweeps -/

theorem composed_inUnits (x : Float) : ComposedOn β chosen (inUnits c x) :=
  .bind (.consult _ _) fun _ => .lift _ _

theorem sweepEnd?_eq_none [Attentive β] {state : String} (hup : state ≠ "Sweeping up")
    (hzero : state ≠ "Sweeping to zero") (hdown : state ≠ "Sweeping down") : sweepEnd? (β := β) c state = none := by
  unfold sweepEnd?
  split
  · exact absurd rfl hup
  · exact absurd rfl hzero
  · exact absurd rfl hdown
  · rfl

theorem composed_waitFor {goal : Use (Minutes β) (Quantity Float)} {goal' : Use β (Quantity Float)}
    (h : Composed chosen none goal goal') (limit : Nat) (state : String) :
    Composed chosen none (waitFor c goal limit state) (waitFor c goal' limit state) := by
  induction limit generalizing state with
  | zero => exact .lift _ _
  | succ limit ih =>
    exact .ite (.lift _ _) (.bind (composed_outputCurrent c) fun _ => .bind h fun _ => .bind (.lift _ _) fun _ =>
      .ite (.lift _ _) (.bind (.sleep _ _) fun _ => .bind (composed_sweep c) fun state => ih state))

theorem composed_waitOnce : ComposedOn β chosen (waitOnce c) := by
  refine .bind (composed_sweep c) fun state => ?_
  by_cases hup : state = "Sweeping up"
  · subst hup
    exact composed_waitFor c (composed_highLimit c) _ _
  by_cases hzero : state = "Sweeping to zero"
  · subst hzero
    exact composed_waitFor c (composed_inUnits c _) _ _
  by_cases hdown : state = "Sweeping down"
  · subst hdown
    exact composed_waitFor c (composed_lowLimit c) _ _
  rw [sweepEnd?_eq_none c hup hzero hdown, sweepEnd?_eq_none c hup hzero hdown]
  exact .lift _ _

theorem composed_waitForSweep : ComposedOn β chosen (waitForSweep c) :=
  .bind (composed_waitOnce c) fun _ => .bind (.consult _ _) fun _ =>
    .ite (.bind (.sleep _ _) fun _ => composed_waitOnce c) (composed_waitOnce c)

theorem composed_startSweep (x : Float) : ComposedOn β chosen (startSweep c x) := by
  refine .ite (composed_setSweep c _) (.bind (composed_outputCurrent c) fun _ => .ite ?_
    (.bind (composed_outputCurrent c) fun _ => .ite ?_ (.lift _ _)))
  · refine .bind (composed_inUnits c x) fun goal => .bind (composed_lowLimit c) fun _ => .bind (.lift _ _) fun _ => ?_
    have hrest : ComposedOn β chosen (setHighLimit c (.quantity goal) >>= fun _ => setSweep c (.text "up")) :=
      .bind (composed_setHighLimit c _) fun _ => composed_setSweep c _
    exact .ite (.bind (composed_setLowLimit c _) fun _ => hrest) hrest
  · refine .bind (composed_inUnits c x) fun goal => .bind (composed_highLimit c) fun _ => .bind (.lift _ _) fun _ => ?_
    have hrest : ComposedOn β chosen (setLowLimit c (.quantity goal) >>= fun _ => setSweep c (.text "down")) :=
      .bind (composed_setLowLimit c _) fun _ => composed_setSweep c _
    exact .ite (.bind (composed_setHighLimit c _) fun _ => hrest) hrest

theorem composed_numberOf : ComposedOn β chosen (numberOf c v) :=
  .bind (.consult _ _) fun _ => .bind (.lift _ _) fun _ => .lift _ _

theorem composed_rounded (x : Float) : ComposedOn β chosen (rounded c x) :=
  .bind (.consult _ _) fun _ => .ite (.lift _ _) (.lift _ _)

theorem composed_sweepTo : ComposedOn β chosen (sweepTo c v) :=
  .bind (composed_numberOf c v) fun x => .bind (composed_startSweep c x) fun _ =>
    .bind (composed_rounded c x) fun _ => .remember _ _ _

theorem composed_setOutput : ComposedOn β chosen (setOutput c v) :=
  .bind (composed_numberOf c v) fun x => .bind (composed_startSweep c x) fun _ => composed_waitForSweep c

theorem composed_startSync : ComposedOn β chosen (startSync c) :=
  .bind (composed_magnetCurrent c) fun _ => composed_sweepTo c _

theorem composed_setSync : ComposedOn β chosen (setSync c v) :=
  .bind (.lift _ _) fun _ => .ite (composed_startSync c)
    (.bind (.lift _ _) fun _ => .ite (composed_setSweep c _) (.lift _ _))

theorem composed_sweepMagnetTo : ComposedOn β chosen (sweepMagnetTo c v) := by
  refine .bind (composed_numberOf c v) fun x => .bind (composed_heater c) fun _ => ?_
  have hrest : ComposedOn β chosen (do
        sweepTo c (.quantity (← inUnits c x))
        let target ← rounded c x
        remember c fun s => { s with magnetTarget := some target }) :=
    .bind (composed_inUnits c x) fun _ => .bind (composed_sweepTo c _) fun _ =>
      .bind (composed_rounded c x) fun _ => .remember _ _ _
  exact .ite (.bind (composed_setHeater c _) fun _ => hrest) hrest

theorem composed_setBothHeaters : ComposedOn β chosen (setBothHeaters v) :=
  .bind (.lift _ _) fun _ => .forM fun c => composed_setHeater c v

theorem composed_isSaving (n : Int) : ComposedOn β chosen (isSaving c n) :=
  .bind (.consult _ _) fun _ => .lift _ _

theorem composed_moveOutput (x : Float) : ComposedOn β chosen (moveOutput c x) :=
  .bind (composed_inUnits c x) fun _ => composed_setOutput c _

theorem composed_heated {switch : Value → Use (Minutes β) PUnit} {switch' : Value → Use β PUnit}
    (h : ∀ v, Composed chosen none (switch v) (switch' v)) (x : Float) :
    Composed chosen none (heated c switch x) (heated c switch' x) :=
  .bind (h _) fun _ => .bind (composed_moveOutput c x) fun _ => h _

theorem composed_synced {act : Use (Minutes β) PUnit} {act' : Use β PUnit} (h : Composed chosen none act act') :
    Composed chosen none (synced c act) (synced c act') :=
  .bind (composed_startSync c) fun _ => .bind (composed_waitForSweep c) fun _ => .bind h fun _ =>
    composed_setSweep c _

theorem composed_setMagnet : ComposedOn β chosen (setMagnet c v) := by
  refine .bind (composed_numberOf c v) fun x => ?_
  have hone : ComposedOn β chosen (heated c (setHeater c) x) := composed_heated c (composed_setHeater c) x
  have hboth : ComposedOn β chosen (heated c setBothHeaters x) := composed_heated c composed_setBothHeaters x
  refine .bind (composed_isSaving c 4) fun _ => .ite (composed_synced c hone) ?_
  refine .bind (composed_isSaving c 3) fun _ => .ite (composed_synced c hboth) ?_
  refine .bind (composed_isSaving c 2) fun _ => .ite hone ?_
  refine .bind (composed_isSaving c 1) fun _ => .ite hboth ?_
  refine .bind (composed_isSaving c 0) fun _ => .ite (.bind (composed_heater c) fun _ => ?_) (.lift _ _)
  exact .ite (.bind (.lift _ _) fun _ => composed_moveOutput c x) (composed_moveOutput c x)

end Controls

/-! ### Both channels -/

theorem composed_common {read : Channel → Use (Minutes β) String} {read' : Channel → Use β String}
    (h : ∀ c, Composed chosen none (read c) (read' c)) : Composed chosen none (common read) (common read') :=
  .bind (h _) fun _ => .bind (h _) fun _ => .lift _ _

theorem composed_setBothUnits (v : Value) : ComposedOn β chosen (setBothUnits v) :=
  .bind (.lift _ _) fun _ => .forM fun c => composed_setUnits c v

theorem composed_resetChannel (c : Channel) : ComposedOn β chosen (resetChannel c) :=
  .bind (.lift _ _) fun _ => .bind (.remember _ _ _) fun _ => .bind (composed_startSync c) fun _ =>
    .bind (composed_waitForSweep c) fun _ => .bind (composed_setHeater c _) fun _ =>
    .bind (composed_setMagnet c _) fun _ => .bind (composed_setLowLimit c _) fun _ =>
    .bind (composed_setHighLimit c _) fun _ => .bind (composed_sweepMagnetTo c _) fun _ =>
    .bind (composed_sweepTo c _) fun _ => composed_setHeater c _

theorem composed_target (c : Channel) (f : ChannelSettings → Option Float) : ComposedOn β chosen (target c f) := by
  refine .bind (.consult _ _) fun x => ?_
  cases x with
  | none => exact .lift _ _
  | some x => exact .bind (composed_inUnits c x) fun _ => .lift _ _

theorem composed_defaults (c : Channel) : ComposedOn β chosen (defaults c) :=
  .bind (.lift _ _) fun _ => .bind (.consult _ _) fun _ => .bind (composed_isSynced c) fun _ =>
    .bind (composed_common composed_units) fun _ => .bind (composed_outputCurrent c) fun _ =>
    .bind (composed_magnetCurrent c) fun _ => .bind (composed_heater c) fun _ =>
    .bind (composed_highLimit c) fun _ => .bind (composed_lowLimit c) fun _ =>
    .bind (composed_target c _) fun _ => .bind (composed_target c _) fun _ => .lift _ _

theorem composed_checkReset (c : Channel) : ComposedOn β chosen (checkReset c) :=
  .bind (composed_defaults c) fun _ => .forM fun _ => .bind (.lift _ _) fun _ => .ite (.lift _ _) (.lift _ _)

/-- After a restart the first channel is selected before anything is said for it. -/
theorem reset_eq [Attentive β] : (reset : Use β PUnit) =
    ((Desk.write "*rst" >>= fun _ => select .one) >>= fun _ => putUnits .one (.text "kG")) >>= fun _ =>
      setUnits .two (.text "kG") >>= fun _ => Channel.all.forM resetChannel >>= fun _ =>
        Channel.all.forM checkReset := by
  have hboth : (setBothUnits (.text "kG") : Use β PUnit) =
      (select .one >>= fun _ => putUnits .one (.text "kG")) >>= fun _ =>
        setUnits .two (.text "kG") >>= fun _ => pure ⟨⟩ := rfl
  rw [reset, hboth]
  simp only [bind_assoc, pure_bind]

theorem composed_reset : ComposedOn β chosen reset := by
  rw [ComposedOn, reset_eq, reset_eq]
  exact .bind (.restart (composed_putUnits .one _)) fun _ => .bind (composed_setUnits .two _) fun _ =>
    .bind (.forM composed_resetChannel) fun _ => .forM composed_checkReset

theorem composed_channelConnected (c : Channel) : ComposedOn β chosen (channelConnected c) :=
  .bind (.consult _ _) fun _ => .bind (composed_setUnits c _) fun _ => .bind (composed_outputCurrent c) fun _ =>
    .bind (.lift _ _) fun _ => .bind (.remember _ _ _) fun _ => .bind (composed_magnetCurrent c) fun _ =>
    .bind (.lift _ _) fun _ => .remember _ _ _

theorem composed_connected (hone : chosen (.int 1)) (name : String) :
    Composed chosen none (instrument name : Instrument Settings (Minutes β)).connected
      (instrument name : Instrument Settings β).connected :=
  .bind (.forM composed_channelConnected) fun _ => .choose _ hone

/-! ### Panels -/

/-- Two controls that do the same, with minutes and without. Only some values may be written. -/
structure TiedControl (chosen allowed : Value → Prop) (k : Control (Desk Settings (Minutes β)))
    (k' : Control (Desk Settings β)) : Prop where
  read : Option.Rel (Composed chosen none) k.read k'.read
  write : Option.Rel (fun put put' => ∀ v, allowed v → Composed chosen none (put v) (put' v)) k.write k'.write

/-- Two panels on which everything does the same, with minutes and without. -/
structure TiedPanel (chosen : Value → Prop) (allowed : String → Value → Prop)
    (p : Panel (Desk Settings (Minutes β))) (p' : Panel (Desk Settings β)) : Prop where
  controls : Forall₂ (fun e e' => e.1 = e'.1 ∧ TiedControl chosen (allowed e.1) e.2 e'.2) p.controls p'.controls
  operations : Forall₂ (fun e e' => e.1 = e'.1 ∧ ∀ args, Composed chosen none (e.2 args) (e'.2 args))
    p.operations p'.operations

section Panels

variable {allowed : String → Value → Prop} {p : Panel (Desk Settings (Minutes β))}
  {p' : Panel (Desk Settings β)} {name : String} {act' : Use β Value}

theorem lookup_rel {δ ε : Type} {R : String → δ → ε → Prop} {xs : List (String × δ)} {ys : List (String × ε)}
    (h : Forall₂ (fun e e' => e.1 = e'.1 ∧ R e.1 e.2 e'.2) xs ys) (name : String) :
    Option.Rel (R name) (xs.lookup name) (ys.lookup name) := by
  induction h with
  | nil => exact .none
  | @cons e e' xs ys he _ ih =>
    obtain ⟨key, x⟩ := e
    obtain ⟨key', y⟩ := e'
    obtain ⟨rfl, hR⟩ := he
    by_cases hname : name = key
    · subst hname
      rw [lookup_cons_self, lookup_cons_self]
      exact .some hR
    · rw [lookup_cons, lookup_cons, beq_eq_false_iff_ne.mpr hname]
      exact ih

section

variable (h : TiedPanel chosen allowed p p')

include h

theorem TiedPanel.control (name : String) :
    (p.control name = .error (.plain .missingAttribute) ∧ p'.control name = .error (.plain .missingAttribute)) ∨
      ∃ k k', p.control name = .ok k ∧ p'.control name = .ok k' ∧ TiedControl chosen (allowed name) k k' := by
  have hlook := lookup_rel (R := fun name => TiedControl chosen (allowed name)) h.controls name
  unfold Panel.control
  generalize p.controls.lookup name = x at hlook ⊢
  generalize p'.controls.lookup name = x' at hlook ⊢
  cases hlook with
  | none => exact Or.inl ⟨rfl, rfl⟩
  | some hk => exact Or.inr ⟨_, _, rfl, rfl, hk⟩

theorem TiedPanel.get (name : String) : Composed chosen none (p.get name) (p'.get name) := by
  unfold Panel.get
  rcases h.control name with ⟨hk, hk'⟩ | ⟨⟨read, write, erase⟩, ⟨read', write', erase'⟩, hk, hk', hread, -⟩
  · rw [hk, hk']
    exact .lift _ (.error _)
  · rw [hk, hk']
    cases hread with
    | none => exact .lift _ _
    | some hread => exact hread

theorem TiedPanel.set {v : Value} (hv : allowed name v) : Composed chosen none (p.set name v) (p'.set name v) := by
  unfold Panel.set
  rcases h.control name with ⟨hk, hk'⟩ | ⟨⟨read, write, erase⟩, ⟨read', write', erase'⟩, hk, hk', -, hwrite⟩
  · rw [hk, hk']
    exact .lift _ (.error _)
  · rw [hk, hk']
    cases hwrite with
    | none => exact .lift _ _
    | some hwrite => exact hwrite v hv

theorem TiedPanel.call (name : String) (args : List Value) :
    Composed chosen none (p.call name args) (p'.call name args) := by
  have hlook := lookup_rel (R := fun _ (f : List Value → Use (Minutes β) Value) (f' : List Value → Use β Value) =>
    ∀ args, Composed chosen none (f args) (f' args)) h.operations name
  unfold Panel.call
  generalize p.operations.lookup name = x at hlook ⊢
  generalize p'.operations.lookup name = x' at hlook ⊢
  cases hlook with
  | none => exact .lift _ _
  | some hact => exact hact args

end

theorem composed_plainly {act : Use (Minutes β) PUnit} {act' : Use β PUnit} (h : Composed chosen none act act')
    (args : List Value) : Composed chosen none (Panel.plainly act args) (Panel.plainly act' args) := by
  cases args with
  | nil => exact .bind h fun _ => .lift _ _
  | cons => exact .lift _ _

theorem tied_reading {allowed : Value → Prop} {act : Use (Minutes β) Value}
    (h : Composed chosen none act act') : TiedControl chosen allowed (.reading act) (.reading act') :=
  ⟨.some h, .none⟩

theorem tied_setting {allowed : Value → Prop} {act : Use (Minutes β) Value}
    {put : Value → Use (Minutes β) PUnit} {put' : Value → Use β PUnit} (h : Composed chosen none act act')
    (hput : ∀ v, allowed v → Composed chosen none (put v) (put' v)) :
    TiedControl chosen allowed (.setting act put) (.setting act' put') :=
  ⟨.some h, .some hput⟩

theorem tied_rates (c : Channel) (ranges : List Nat) : Forall₂
    (fun (e : String × Control (Desk Settings (Minutes β))) (e' : String × Control (Desk Settings β)) =>
      e.1 = e'.1 ∧ TiedControl chosen (allowed e.1) e.2 e'.2)
    (ranges.map fun range => (s!"rate_{range}", .setting (rate c range) (setRate c range)))
    (ranges.map fun range => (s!"rate_{range}", .setting (rate c range) (setRate c range))) := by
  rw [forall₂_map_left_iff, forall₂_map_right_iff, forall₂_same]
  exact fun range _ => ⟨rfl, tied_setting (composed_rate c range) fun v _ => composed_setRate c v range⟩

theorem tied_channelPanel (c : Channel) (settings : Settings) :
    TiedPanel (β := β) chosen allowed (channelPanel c settings) (channelPanel c settings) := by
  have hcopied {act : Use (Minutes β) (Quantity Float)} {act' : Use β (Quantity Float)}
      (h : Composed chosen none act act') :
      Composed chosen none (do return Value.quantity (← inUnits c (← (← act).inUnits)))
        (do return Value.quantity (← inUnits c (← (← act').inUnits))) :=
    h.bind fun _ => .bind (.lift _ _) fun x => (composed_inUnits c x).map _
  constructor
  · refine rel_append (rel_append ?_ (tied_rates c _)) ?_
    · refine .cons ⟨rfl, tied_reading ((composed_magnetCurrent c).map _)⟩ ?_
      refine .cons ⟨rfl, tied_reading ((composed_outputCurrent c).map _)⟩ ?_
      refine .cons ⟨rfl, tied_setting ((composed_heater c).map _) fun v _ => composed_setHeater c v⟩ ?_
      refine .cons ⟨rfl, tied_setting ((composed_highLimit c).map _) fun v _ => composed_setHighLimit c v⟩ ?_
      refine .cons ⟨rfl, tied_setting ((composed_lowLimit c).map _) fun v _ => composed_setLowLimit c v⟩ ?_
      exact .cons ⟨rfl, tied_setting ((composed_sweep c).map _) fun v _ => composed_setSweep c v⟩ .nil
    · refine .cons ⟨rfl, tied_setting ((composed_isSynced c).map _) fun v _ => composed_setSync c v⟩ ?_
      refine .cons ⟨rfl, tied_setting (hcopied (composed_magnetCurrent c)) fun v _ => composed_setMagnet c v⟩ ?_
      refine .cons ⟨rfl, tied_setting (hcopied (composed_outputCurrent c)) fun v _ => composed_setOutput c v⟩ ?_
      refine .cons ⟨rfl, tied_setting (composed_target c _) fun v _ => composed_sweepMagnetTo c v⟩ ?_
      refine .cons ⟨rfl, tied_setting (composed_target c _) fun v _ => composed_sweepTo c v⟩ ?_
      refine .cons ⟨rfl, tied_setting (.consult _ _) fun v _ => .remember _ _ _⟩ ?_
      refine .cons ⟨rfl, tied_setting (.map (.consult _ _) _) fun v _ => .bind (.lift _ _) fun _ => .remember _ _ _⟩ ?_
      refine .cons ⟨rfl, tied_setting (.bind (.consult _ _) fun _ => .map (.lift _ _) _) fun v _ =>
        .bind (.lift _ _) fun _ => .bind (.lift _ _) fun _ => .remember _ _ _⟩ ?_
      exact .cons ⟨rfl, tied_setting ((composed_units c).map _) fun v _ => composed_setUnits c v⟩ .nil
  · refine .cons ⟨rfl, composed_plainly (composed_waitForSweep c)⟩ (.cons ⟨rfl, fun args => ?_⟩ .nil)
    exact .ite (.spoken (.lift _ _)) (.lift _ _)

theorem tied_panel (kind : String) (settings : Settings) (hallowed : ∀ v, allowed "active_channel" v → chosen v) :
    TiedPanel (β := β) chosen allowed (panel kind settings) (panel kind settings) := by
  constructor
  · refine .cons ⟨rfl, tied_setting ?_ fun v hv => .choose v (hallowed v hv)⟩ ?_
    · exact .bind (.bind .askChannel fun _ => .lift _ _) fun _ => .lift _ _
    refine .cons ⟨rfl, tied_reading (.consult _ _)⟩ ?_
    refine .cons ⟨rfl, tied_setting (composed_common composed_heater) fun v _ => composed_setBothHeaters v⟩ ?_
    exact .cons ⟨rfl, tied_setting (composed_common composed_units) fun v _ => composed_setBothUnits v⟩ .nil
  · exact .cons ⟨rfl, composed_plainly composed_reset⟩ .nil

end Panels

/-! ### Sequences of operations -/

/-- Something that can be done from the desk with the supply or, by a path, with one of its channels. -/
inductive Operation where
  | get (path : List String) (name : String)
  | set (path : List String) (name : String) (v : Value)
  | call (path : List String) (name : String) (args : List Value)

namespace Operation

def path : Operation → List String
  | get path _ | set path _ _ | call path _ _ => path

def on {σ : Type} (p : Panel σ) : Operation → Act σ PUnit
  | get _ name => discard (p.get name)
  | set _ name v => p.set name v
  | call _ name args => discard (p.call name args)

def perform {β : Type} [Line β] [Attentive β] (op : Operation) : Use β PUnit := do
  let p ← (panel "" (← Desk.consult id)).part op.path
  op.on p

/-- The active channel is not made anything but what is allowed. -/
def Chooses (chosen : Value → Prop) (op : Operation) : Prop :=
  ∀ path v, op = set path "active_channel" v → chosen v

end Operation

variable {p : Panel (Desk Settings (Minutes β))} {p' : Panel (Desk Settings β)} {ops : List Operation}

/-- The values that are allowed for a control if the active channel may be made some values only. -/
def AllowedFor (chosen : Value → Prop) (name : String) (v : Value) : Prop :=
  name = "active_channel" → chosen v

theorem TiedPanel.on (h : TiedPanel chosen (AllowedFor chosen) p p') {op : Operation} (hop : op.Chooses chosen) :
    Composed chosen none (op.on p) (op.on p') := by
  cases op with
  | get path name => exact (h.get name).map _
  | set path name v => exact h.set fun hname => hop path v (by rw [hname])
  | call path name args => exact (h.call name args).map _

theorem part_eq_error [Attentive β] (kind : String) (settings : Settings) {name : String}
    (hone : name ≠ "channel1") (htwo : name ≠ "channel2") (path : List String) :
    (panel kind settings : Panel (Desk Settings β)).part (name :: path) = .error (.plain .missingKey) := by
  have hlook : (panel kind settings : Panel (Desk Settings β)).parts.lookup name = none := by
    rw [panel, lookup_cons, beq_eq_false_iff_ne.mpr hone]
    change lookup name [("channel2", channelPanel .two settings)] = none
    rw [lookup_cons, beq_eq_false_iff_ne.mpr htwo]
    rfl
  rw [Panel.part, hlook]

theorem composed_perform {op : Operation} (hop : op.Chooses chosen) : ComposedOn β chosen op.perform := by
  refine .bind (.consult _ _) fun settings => ?_
  have hchannel (c : Channel) := (tied_channelPanel (β := β) c settings).on hop
  cases op.path with
  | nil => exact (tied_panel "" settings fun v hv => hv rfl).on hop
  | cons name path =>
    by_cases hone : name = "channel1"
    · subst hone
      cases path with
      | nil => exact hchannel .one
      | cons => exact .lift _ (.error _)
    by_cases htwo : name = "channel2"
    · subst htwo
      cases path with
      | nil => exact hchannel .two
      | cons => exact .lift _ (.error _)
    rw [part_eq_error "" settings hone htwo, part_eq_error "" settings hone htwo]
    exact .lift _ (.error _)

/-- One operation after the other, whether they end in faults or not. -/
def performAll {β : Type} [Line β] [Attentive β] (ops : List Operation) (d : Desk Settings β) : Desk Settings β :=
  ops.foldl (fun d op => (op.perform d).2) d

/-- The connection is made, and then one operation is done after the other. -/
def operate {β : Type} [Line β] [Attentive β] (name : String) (ops : List Operation) (line : β) : Desk Settings β :=
  performAll ops
    ((instrument name).connected { settings := (instrument name : Instrument Settings β).settings, line }).2

theorem performAll_withoutMinutes (ops : List Operation) (d : Desk Settings (Minutes β)) :
    performAll ops (withoutMinutes d) = withoutMinutes (performAll ops d) := by
  induction ops generalizing d with
  | nil => rfl
  | cons op ops ih =>
    have hcomposed : Composed (β := β) (fun _ => True) none op.perform op.perform :=
      composed_perform fun _ _ _ => trivial
    change performAll ops (op.perform (withoutMinutes d)).2 = _
    rw [hcomposed.erases d]
    exact ih _

theorem performAll_kept (hP : Kept chosen P) (hops : ∀ op ∈ ops, op.Chooses chosen) {d : Desk Settings (Minutes β)}
    (hd : P d) : P (performAll ops d) := by
  induction ops generalizing d with
  | nil => exact hd
  | cons op ops ih =>
    rw [forall_mem_cons] at hops
    exact ih hops.2 ((composed_perform hops.1).preserves hP d (while_none hd)).1

theorem operate_withoutMinutes (name : String) (ops : List Operation) (line : β) :
    withoutMinutes (operate name ops ({ line } : Minutes β)) = operate name ops line := by
  have hconn : ComposedOn β (fun _ => True) (instrument name).connected := composed_connected trivial name
  rw [operate, ← performAll_withoutMinutes, operate]
  exact congrArg (performAll ops) (congrArg Prod.snd (hconn.erases { settings := {}, line := { line } })).symm

/-- What holds before the connection and is kept up by the operations that speak holds ever after. -/
theorem operate_kept (hP : Kept chosen P)
    (hone : chosen (.int 1)) (name : String) (hops : ∀ op ∈ ops, op.Chooses chosen)
    {line : Minutes β} (hline : P { settings := {}, line }) : P (operate name ops line) :=
  performAll_kept hP hops ((composed_connected hone name).preserves hP _ (while_none hline)).1

end LabBench.MagnetSupply
