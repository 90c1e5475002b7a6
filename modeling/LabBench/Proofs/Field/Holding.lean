import LabBench.Proofs.Field.Supply
/-!
# Assignments of fields

A field is assigned in many steps, and each of them may end in a fault. Wherever that happens, the output field is still
the field of the magnet if the heater is off, or the supply is left moving and refuses every other field until it is on
hold again. So the heater is never turned on at the wrong time.

What is not a number cannot be waited for, so it is left while the supply moves: no field that was assigned is one.
-/

namespace LabBench.FieldSupply

open Act Number Simulated LabBench.FieldSupply.Simulation

variable {start : Simulated Memory} {settings : Settings} {m : Memory} {d : Desk Settings (Simulated Memory)}
  {isMoving : Bool} {rate : Float} {f : Fault} {P E : Memory → Prop}

/-- The memory has a property, and the log accounts for it. -/
def Reaches (start : Simulated Memory) (settings : Settings) (P : Memory → Prop)
    (d : Desk Settings (Simulated Memory)) : Prop :=
  ∃ m, Follows start settings m d ∧ P m

/-- After a fault the memory has a property. There was no division by zero unless the rate is zero for a second. -/
def Broken (start : Simulated Memory) (settings : Settings) (rate : Float) (P : Memory → Prop) (f : Fault)
    (d : Desk Settings (Simulated Memory)) : Prop :=
  (f.kind = .zeroDivision → (rate * (1.0 / 60.0) == 0.0) = true) ∧ Reaches start settings P d

theorem Follows.broken (h : Follows start settings m d) (hm : P m) (hf : f.kind ≠ .zeroDivision) :
    Broken start settings rate P f d :=
  ⟨fun hzero => absurd hzero hf, m, h, hm⟩

theorem Broken.mono (h : Broken start settings rate P f d) (hE : ∀ m, P m → E m) : Broken start settings rate E f d :=
  ⟨h.1, h.2.imp fun m hm => ⟨hm.1, hE m hm.2⟩⟩

theorem Follows.pause (h : Follows start settings m d) (hm : P m) (x : Float) :
    Ensures (Clocked.pause x) d (fun _ d' => x.isNaN = false ∧ Follows start settings m d')
      (Broken start settings rate P) := by
  unfold Clocked.pause
  split
  · exact .fail (h.broken hm nofun)
  · rename_i hx
    split
    · exact .fail (h.broken hm nofun)
    · refine ensures_of_eq_ok rfl ⟨?_, h.copy h.settings_eq ⟨rfl, rfl, rfl⟩⟩
      exact Bool.eq_false_of_not_eq_true (not_or.mp (Bool.or_eq_true _ _ ▸ hx)).2

theorem Follows.sleep (h : Follows start settings m d) (hm : P m) (seconds : Value) :
    Ensures (Clocked.sleep seconds) d (fun _ => Follows start settings m) (Broken start settings rate P) := by
  have hlast (x : Float) : Ensures (Clocked.pause x) d (fun _ => Follows start settings m)
      (Broken start settings rate P) := (h.pause hm x).mono (fun _ _ h => h.2) fun _ _ h => h
  cases seconds with
  | int n =>
    refine .lift_bind (fun f hf => h.broken hm ?_) fun x _ => hlast x
    unfold Value.floatOfInt at hf
    split at hf <;> cases hf
    nofun
  | flag b | real x => exact hlast _
  | _ => exact .fail (h.broken hm nofun)

theorem ensures_busy {act : Use (Simulated Memory) PUnit} {what : String} (hd : Follows start settings m d)
    (h : ∀ d, Follows start settings m d →
      Ensures act d (fun _ => Reaches start settings P) (Broken start settings rate E)) :
    Ensures (Desk.busy what act) d (fun _ => Reaches start settings P) (Broken start settings rate E) := by
  have hfst : Follows start settings m { d with status := d.status ++ [what] } := hd.copy hd.settings_eq ⟨rfl, rfl, rfl⟩
  have hlast {P : Memory → Prop} {t : Desk Settings (Simulated Memory)} (ht : Reaches start settings P t) :
      Reaches start settings P { t with status := t.status.dropLast } := by
    obtain ⟨m', ht, hP⟩ := ht
    exact ⟨m', ht.copy ht.settings_eq ⟨rfl, rfl, rfl⟩, hP⟩
  have hensures := h _ hfst
  rcases hact : act { d with status := d.status ++ [what] } with ⟨x, t⟩
  have hbusy : Desk.busy what act d = (x, { t with status := t.status.dropLast }) := by
    have hstart : (modify fun d => { d with status := d.status ++ [what] } : Use (Simulated Memory) PUnit) d =
        (.ok ⟨⟩, { d with status := d.status ++ [what] }) := rfl
    rw [Desk.busy, bind_of_ok hstart, Act.always, hact]
    rfl
  refine ensures_of_eq hbusy ?_ ?_
  · rintro a rfl
    exact hlast (hensures.1 a t hact)
  · rintro e rfl
    exact (hensures.2 e t hact).imp id hlast

/-! ### Moving the output -/

/-- A change of the output field: the heater, the field of the magnet and the rate are left alone. -/
structure Moved (m m' : Memory) : Prop where
  isHeated : m'.isHeated = m.isHeated
  persistent : m'.persistent = m.persistent
  sweepRate : m'.sweepRate = m.sweepRate

/-- A change of the output that was tried and ended in a fault, before anything was changed or while it moved. -/
def Tried (m m' : Memory) : Prop :=
  Moved m m' ∧ (Stands true m' ∨ Stands false m' ∧ m'.output = m.output)

/-- A field is the one that was wanted, and a number. -/
structure Meets (x : Float) (q : Quantity Float) : Prop where
  equal : ∀ p : Quantity Float, p.magnitude = x → p.dimension = Quantity.fieldDimension → p.equal q = .ok true
  isNumber : x.isNaN = false

/-- A change of the output that has come to its end. -/
def Settled (m : Memory) (q : Quantity Float) (m' : Memory) : Prop :=
  Moved m m' ∧ Stands false m' ∧ Meets m'.output q

theorem zero_of_duration {change r : Quantity Float} (hdur : duration change r = .error f)
    (hf : f.kind = .zeroDivision) : (r.magnitude == 0.0) = true := by
  rcases Outcome.bind_eq_error.mp hdur with habs | ⟨size, -, hdiv⟩
  · exact absurd hf (Quantity.undivided_abs change f habs)
  · by_contra hne
    rw [Bool.not_eq_true] at hne
    rw [hne] at hdiv
    cases hdiv

/-- There is no time in which a field that is not a number is reached. -/
theorem isNaN_of_duration {p q change r : Quantity Float} {time : Float} (hchange : q.sub p = .ok change)
    (hdur : duration change r = .ok time) (hq : q.magnitude.isNaN = true) : time.isNaN = true := by
  have hnan := Quantity.isNaN_of_sub hchange hq
  have habs : change.abs = .ok change := by
    have hless : Magnitude.less change.magnitude (Magnitude.ofInt 0) = false := by
      rw [eq_of_isNaN hnan]
      decide +kernel
    rw [Quantity.abs, hless]
    rfl
  obtain ⟨size, hsize, hdur⟩ := Outcome.bind_eq_ok.mp hdur
  cases habs.symm.trans hsize
  split at hdur
  · cases hdur
  · cases hdur
    exact isNaN_div hnan _

section

variable (h : Follows start settings m d)

include h

theorem Follows.sweepRate : ∃ r d', sweepRate d = (.ok r, d') ∧ r.magnitude = m.sweepRate * (1.0 / 60.0) ∧
    Follows start settings m d' := by
  have hparse : Unit.parse (K := Float) "T.s-1" = .ok [⟨0, .tesla, none⟩, ⟨0, .second, some (-1.0)⟩] := by
    with_unfolding_all rfl
  obtain ⟨d', hask, hd'⟩ := h.askNumber "R9" (x := m.sweepRate) (by decide) (by rintro s rfl; rfl)
  obtain ⟨scale, hmake⟩ := Quantity.exists_make_coherent hparse rfl rfl (by decide +kernel) (m.sweepRate * (1.0 / 60.0))
  have hread : FieldSupply.sweepRate d = (.ok _, d') := (bind_of_ok hask).trans (congrArg (·, d') hmake)
  exact ⟨_, d', hread, rfl, hd'⟩

theorem Follows.waitForSweep (hm : Stands isMoving m) :
    ∃ d', waitForSweep d = (.ok ⟨⟩, d') ∧ Follows start settings m d' := by
  obtain ⟨d', hstat, hd'⟩ := h.status hm
  refine ⟨d', ?_, hd'⟩
  rw [FieldSupply.waitForSweep, show sweepRounds = 99999 + 1 from rfl, repeatUntil, bind_assoc, bind_of_ok hstat]
  rfl

theorem Follows.setSetPoint (hm : P m) (q : Quantity Float) :
    Ensures (setSetPoint (.quantity q)) d (fun _ => Follows start settings { m with setPoint := q.magnitude })
      (Broken start settings rate P) := by
  refine .lift_bind (fun f hf => h.broken hm (Quantity.undivided_toSetting q "T" f hf)) fun v hv => ?_
  rw [Quantity.eq_of_toSetting_tesla hv]
  have hne : "$J" ++ plain q.magnitude ≠ "$H1" := command_ne_heat (by decide) _
  obtain ⟨d', hwrite, h'⟩ := h.tell ("$J" ++ plain q.magnitude) (fun htext => absurd htext hne) fun s _ =>
    ⟨_, respond_setPoint q.magnitude s⟩
  rw [reaction_setPoint] at h'
  exact ensures_of_eq_ok hwrite h'

theorem Follows.setActivity_go : ∃ d', setActivity (.text "to_set") d = (.ok ⟨⟩, d') ∧
    Follows start settings { m with activity := .int 1, output := m.setPoint } d' := by
  have hpos : positionOf (.text "to_set") (activities.map .text) = .ok 1 := by decide +kernel
  obtain ⟨d', hwrite, h'⟩ := h.tell "$A1" nofun fun s _ => ⟨_, rfl⟩
  exact ⟨d', (lift_bind_of_ok hpos _ d).trans hwrite, h'⟩

theorem Follows.setActivity_hold : ∃ d', setActivity (.text "hold") d = (.ok ⟨⟩, d') ∧
    Follows start settings { m with activity := .int 0 } d' := by
  have hpos : positionOf (.text "hold") (activities.map .text) = .ok 0 := by decide +kernel
  obtain ⟨d', hwrite, h'⟩ := h.tell "$A0" nofun fun s _ => ⟨_, rfl⟩
  exact ⟨d', (lift_bind_of_ok hpos _ d).trans hwrite, h'⟩

theorem Follows.move (hm : Stands false m) (hheated : m.isHeated = true) (q : Quantity Float) (time : Float) :
    Ensures (do
        FieldSupply.setSetPoint (.quantity q)
        setActivity (.text "to_set")
        if ← FieldSupply.isHeaterOn then Clocked.sleep (.real time)
        FieldSupply.waitForSweep
        setActivity (.text "hold")) d
      (fun _ d' => time.isNaN = false ∧
        Follows start settings { m with activity := .int 0, output := q.magnitude, setPoint := q.magnitude } d')
      (Broken start settings rate (Tried m)) := by
  refine Ensures.bind (h.setSetPoint ⟨⟨rfl, rfl, rfl⟩, .inr ⟨hm, rfl⟩⟩ q) fun _ d₁ h₁ => ?_
  obtain ⟨d₂, hgo, h₂⟩ := h₁.setActivity_go
  have hmov : Stands true { m with activity := .int 1, output := q.magnitude, setPoint := q.magnitude } :=
    ⟨rfl, hm.mode⟩
  obtain ⟨d₃, hheater, h₃⟩ := h₂.isHeaterOn hmov
  rw [show Memory.isHeated _ = true from hheated] at hheater
  refine ensures_bind_of_ok hgo (ensures_bind_of_ok hheater ?_)
  refine Ensures.bind (h₃.pause ⟨⟨rfl, rfl, rfl⟩, .inl hmov⟩ time) fun _ d₄ ⟨htime, h₄⟩ => ?_
  obtain ⟨d₅, hwait, h₅⟩ := h₄.waitForSweep hmov
  obtain ⟨d₆, hhold, h₆⟩ := h₅.setActivity_hold
  exact ensures_bind_of_ok hwait (ensures_of_eq_ok hhold ⟨htime, h₆⟩)

/-- While the heater is on, the output goes to a field, which is a number if it gets there. -/
theorem Follows.goTo (hm : Stands false m) (hnumber : m.output.isNaN = false) (hheated : m.isHeated = true)
    (q : Quantity Float) : Ensures (goTo (.quantity q)) d (fun _ => Reaches start settings (Settled m q))
      (Broken start settings m.sweepRate (Tried m)) := by
  have hhere : Tried m m := ⟨⟨rfl, rfl, rfl⟩, .inr ⟨hm, rfl⟩⟩
  obtain ⟨scale, d₁, hout, h₁⟩ := h.outputField
  refine ensures_bind_of_ok hout (.lift_bind (fun f hf => h₁.broken hhere ?_) fun isThere heq => ?_)
  · exact Quantity.undivided_equal _ q f hf
  have heq' : (⟨m.output, Quantity.fieldDimension, "T", scale⟩ : Quantity Float).equal q = .ok isThere := heq
  have hclose {p : Quantity Float} (hp : p.dimension = Quantity.fieldDimension) :
      p.equal q = .ok (Magnitude.close p.magnitude q.magnitude) := Quantity.equal_eq heq' hp
  cases isThere with
  | true =>
    have hthere := hclose (p := ⟨m.output, Quantity.fieldDimension, "T", scale⟩) rfl
    rw [heq'] at hthere
    have htrue : Magnitude.close m.output q.magnitude = true := (Except.ok.inj hthere).symm
    refine .pure ⟨m, h₁, hhere.1, hm, fun p hmag hdim => ?_, hnumber⟩
    rw [hclose hdim, hmag, htrue]
  | false =>
    refine ensures_busy h₁ fun d₂ h₂ => ?_
    obtain ⟨scale', d₃, hout', h₃⟩ := h₂.outputField
    refine ensures_bind_of_ok hout' (.lift_bind (fun f hf => h₃.broken hhere ?_) fun v hv => ?_)
    · exact Quantity.undivided_minus q _ f hf
    obtain ⟨change, hsub, hchange⟩ := Outcome.bind_eq_ok.mp hv
    cases hchange
    obtain ⟨r, d₄, hrate, hmag, h₄⟩ := h₃.sweepRate
    refine ensures_bind_of_ok rfl (ensures_bind_of_ok hrate ?_)
    refine .lift_bind (fun f hf => ⟨fun hzero => ?_, m, h₄, hhere⟩) fun time htime => ?_
    · rw [← hmag]
      exact zero_of_duration hf hzero
    refine (h₄.move hm hheated q time).mono (fun _ d₅ ⟨hwaited, h₅⟩ => ?_) fun _ _ h => h
    have hq : q.magnitude.isNaN = false := by
      by_contra hnan
      cases hwaited.symm.trans (isNaN_of_duration hsub htime (Bool.eq_true_of_not_eq_false hnan))
    refine ⟨_, h₅, ⟨rfl, rfl, rfl⟩, ⟨rfl, hm.mode⟩, fun p hmag hdim => ?_, hq⟩
    rw [hclose hdim, hmag, Magnitude.close_self, hq]
    rfl

omit h in
theorem Balanced.equal (hbal : Balanced m) (scale scale' : Quantity.Scale Float) :
    (⟨m.output, Quantity.fieldDimension, "T", scale⟩ : Quantity Float).equal
      ⟨m.persistent, Quantity.fieldDimension, "T", scale'⟩ = .ok true := by
  have hsame : Quantity.fieldDimension.same Quantity.fieldDimension = true := by decide +kernel
  rw [Quantity.equal, Quantity.checkDimension, Quantity.sameDimension, hsame, hbal.output]
  change Except.ok (Magnitude.close m.persistent m.persistent) = _
  rw [Magnitude.close_self, hbal.isNumber]
  rfl

/-- An output that is the field of the magnet already stays there. -/
theorem Follows.goTo_persistent (hbal : Balanced m) (scale : Quantity.Scale Float) :
    ∃ d', FieldSupply.goTo (.quantity ⟨m.persistent, Quantity.fieldDimension, "T", scale⟩) d = (.ok ⟨⟩, d') ∧
      Follows start settings m d' := by
  obtain ⟨scale', d₁, hout, h₁⟩ := h.outputField
  refine ⟨d₁, ?_, h₁⟩
  have hthere : (Value.quantity ⟨m.output, Quantity.fieldDimension, "T", scale'⟩).equal
      (.quantity ⟨m.persistent, Quantity.fieldDimension, "T", scale⟩) = .ok true := hbal.equal scale' scale
  rw [FieldSupply.goTo, bind_of_ok hout, hthere]
  rfl

end

/-! ### Assignments -/

theorem Follows.setHeater (h : Follows start settings m d) (isOn : Bool)
    (hheat : isOn = true → Balanced m) :
    Ensures (setHeater (.flag isOn)) d
      (fun _ => Reaches start settings (· = reaction (if isOn then "$H1" else "$H0") m))
      (Broken start settings rate (· = reaction (if isOn then "$H1" else "$H0") m)) := by
  refine ensures_busy h fun d₁ h₁ => ?_
  obtain ⟨d₂, hwrite, h₂⟩ := h₁.tell (if isOn then "$H1" else "$H0") (by cases isOn <;> simp_all) fun s _ => by
    cases isOn <;> exact ⟨_, rfl⟩
  have hcommand : "$H" ++ toString (if isOn then 1 else 0 : ℤ) = if isOn then "$H1" else "$H0" := by cases isOn <;> rfl
  refine ensures_bind_of_ok rfl (ensures_bind_of_ok (hcommand ▸ hwrite) (ensures_bind_of_ok rfl ?_))
  exact (h₂.sleep (P := (· = _)) rfl _).mono (fun _ _ h => ⟨_, h, rfl⟩) fun _ _ h => h

/-- What holds between two operations: the supply stands still, and the output field is the field of the magnet if the
heater is off; or it was left moving, and refuses every other field. The field of the magnet is a number. -/
structure Poised (m : Memory) : Prop where
  isNumber : m.persistent.isNaN = false
  stands : Stands true m ∨ Stands false m ∧ m.output.isNaN = false ∧ (m.isHeated = false → m.output = m.persistent)

/-- What holds after an assignment. -/
structure Held (settings : Settings) (q : Quantity Float) (m : Memory) : Prop where
  stands : Stands false m
  meets : Meets m.output q
  isHeated : m.isHeated = settings.staysHot.truth
  isNumber : m.persistent.isNaN = false
  balanced : m.isHeated = false → m.output = m.persistent

/-- Wherever a change of the output ends while the heater is on. -/
theorem Tried.poised {m' : Memory} (h : Tried m m') (hheated : m.isHeated = true) (hnumber : m.output.isNaN = false)
    (hpers : m.persistent.isNaN = false) : Poised m' := by
  obtain ⟨hmoved, hstands⟩ := h
  refine ⟨hmoved.persistent ▸ hpers, hstands.imp_right fun ⟨hstill, hout⟩ => ⟨hstill, hout ▸ hnumber, fun hcold => ?_⟩⟩
  cases hheated.symm.trans (hmoved.isHeated.symm.trans hcold)

/-- A heater that is off is turned on while the output is at the field of the magnet. -/
theorem Follows.warmUp (h : Follows start settings m d) (hm : Stands false m) (hbal : Balanced m) :
    Ensures (do
        FieldSupply.goTo (.quantity (← FieldSupply.persistentField))
        FieldSupply.setHeater (.flag true)) d
      (fun _ => Follows start settings { m with isHeated := true }) (Broken start settings m.sweepRate Poised) := by
  obtain ⟨scale, d₁, hpers, h₁⟩ := h.persistentField
  obtain ⟨d₂, hgo, h₂⟩ := h₁.goTo_persistent hbal scale
  refine ensures_bind_of_ok hpers (ensures_bind_of_ok hgo ?_)
  refine (h₂.setHeater true fun _ => hbal).mono ?_ fun _ _ h => h.mono ?_
  · rintro _ d₃ ⟨_, h₃, rfl⟩
    exact h₃
  · rintro _ rfl
    exact ⟨hbal.isNumber, .inr ⟨⟨hm.activity, hm.mode⟩, hbal.output.symm ▸ hbal.isNumber, nofun⟩⟩

/-- What holds after an assignment of a value, which is a quantity then. -/
def Assigned (start : Simulated Memory) (settings : Settings) (v : Value)
    (d : Desk Settings (Simulated Memory)) : Prop :=
  ∃ q, v = .quantity q ∧ Reaches start settings (Held settings q) d

/-- While the heater is on, the magnet gets the field; then the heater is turned off unless it stays on. -/
theorem Follows.settle (h : Follows start settings m d) (hm : Stands false m) (hheated : m.isHeated = true)
    (hnumber : m.output.isNaN = false) (hpers : m.persistent.isNaN = false) (v : Value) :
    Ensures (do
        FieldSupply.goTo v
        if !(← Desk.consult Settings.staysHot).truth then FieldSupply.setHeater (.flag false)) d
      (fun _ => Assigned start settings v) (Broken start settings m.sweepRate Poised) := by
  cases v with
  | quantity q =>
    have hgo := (h.goTo hm hnumber hheated q).mono (fun _ _ h => h) fun _ _ h => h.mono fun _ htried =>
      htried.poised hheated hnumber hpers
    refine Ensures.bind hgo ?_
    rintro _ d₁ ⟨m', h₁, hmoved, hstands, hmeets⟩
    have hpers' : m'.persistent.isNaN = false := hmoved.persistent ▸ hpers
    have hcons : Desk.consult Settings.staysHot d₁ = (.ok settings.staysHot, d₁) := by
      rw [← h₁.settings_eq]
      rfl
    refine ensures_bind_of_ok hcons ?_
    cases hstays : settings.staysHot.truth with
    | true =>
      have hheated' := hmoved.isHeated.trans hheated
      refine .pure ⟨q, rfl, m', h₁, hstands, hmeets, hheated'.trans hstays.symm, hpers', fun hcold => ?_⟩
      cases hheated'.symm.trans hcold
    | false =>
      refine (h₁.setHeater false nofun).mono ?_ fun _ _ h => h.mono ?_
      · rintro _ d₂ ⟨_, h₂, rfl⟩
        exact ⟨q, rfl, _, h₂, ⟨hstands.activity, hstands.mode⟩, hmeets, hstays.symm, hmeets.isNumber, fun _ => rfl⟩
      · rintro _ rfl
        exact ⟨hmeets.isNumber, .inr ⟨⟨hstands.activity, hstands.mode⟩, hmeets.isNumber, fun _ => rfl⟩⟩
  | _ =>
    -- only a quantity can be compared with a field
    obtain ⟨scale, d₁, hout, h₁⟩ := h.outputField
    have hhere : Poised m := ⟨hpers, .inr ⟨hm, hnumber, fun hcold => by cases hheated.symm.trans hcold⟩⟩
    refine Ensures.bind (Q := fun _ _ => False) (ensures_bind_of_ok hout ?_) nofun
    rw [Value.equal]
    · exact .lift_bind (by rintro _ ⟨⟩; exact h₁.broken hhere nofun) nofun
    · nofun

theorem Follows.setField (h : Follows start settings m d) (hm : Poised m) (v : Value) :
    Ensures (setField v) d (fun _ => Assigned start settings v) (Broken start settings m.sweepRate Poised) := by
  obtain ⟨hpers, hmov | ⟨hstill, hnumber, hbal⟩⟩ := hm
  · obtain ⟨d₁, hstat, h₁⟩ := h.status hmov
    refine ensures_bind_of_ok hstat ?_
    refine ensures_bind_of_ok rfl (ensures_bind_of_ok rfl (ensures_bind_of_ok rfl ?_))
    obtain ⟨d₂, hactv, h₂⟩ := h₁.activity hmov
    obtain ⟨d₃, hactv', h₃⟩ := h₂.activity hmov
    refine ensures_bind_of_ok hactv (ensures_bind_of_ok hactv' ?_)
    exact Ensures.bind (Q := fun _ _ => False) (.fail (h₃.broken ⟨hpers, .inl hmov⟩ nofun)) nofun
  · obtain ⟨d₁, hstat, h₁⟩ := h.status hstill
    refine ensures_bind_of_ok hstat ?_
    refine ensures_bind_of_ok rfl (ensures_bind_of_ok rfl (ensures_bind_of_ok rfl ?_))
    obtain ⟨d₂, hactv, h₂⟩ := h₁.activity hstill
    obtain ⟨d₃, hheater, h₃⟩ := h₂.isHeaterOn hstill
    refine ensures_bind_of_ok hactv (ensures_bind_of_ok hheater ?_)
    cases hheated : m.isHeated with
    | true => exact h₃.settle hstill hheated hnumber hpers v
    | false =>
      have hrest := (h₃.warmUp hstill ⟨hbal hheated, hpers⟩).bind fun _ d₄ h₄ =>
        h₄.settle ⟨hstill.activity, hstill.mode⟩ rfl hnumber hpers v
      simp only [bind_assoc] at hrest
      exact hrest

end LabBench.FieldSupply
