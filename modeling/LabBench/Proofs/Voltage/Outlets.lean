import LabBench.Proofs.Field.Readings
import LabBench.Proofs.Voltage.Registers
/-!
# What an outlet remembers

An outlet of a voltage source remembers the last voltage, its gain and its offset on this side of the line. The voltage
is noted as soon as it has been adjusted and found within the bounds, before the conversation with the converter starts,
so it is read back even if the conversation fails, and without undoing the adjustment. Gain and offset are put aside
during a tuning, and only its last step puts them back.

## Main results

* `voltage_after_attempts`, `adjustment_after_tune`
-/

namespace LabBench

open Number List

namespace Quantity

def voltDimension : Dimension Float :=
  Dimension.ofTerms [⟨0, .volt, none⟩]

theorem exists_ofReading_volt (x : Float) :
    ∃ scale, ofReading (.text "V") (.real x) (.real 1.0) = .ok ⟨x, voltDimension, "V", scale⟩ := by
  have hparse : Unit.parse (K := Float) "V" = .ok [⟨0, .volt, none⟩] := by with_unfolding_all rfl
  rw [ofReading_real, float_mul_one]
  exact exists_make_coherent hparse rfl rfl (by decide +kernel) x

end Quantity

namespace VoltageSource

open Act

variable {β : Type} {m : Model} {number : Nat} {d : Desk Settings β} {p : Outlet} {g o : Float}

/-! ### Voltages and adjustments -/

/-- The outlet with another voltage to remember. -/
def Outlet.remembering (p : Outlet) (current : Option Value) : Outlet :=
  { p with current }

/-- What an outlet remembers of a value that is set on it: the adjusted voltage, if it is within the bounds. -/
def Outlet.noted (p : Outlet) (v : Value) : Option Value :=
  (Quantity.toSetting "V" v (.real 1.0) >>= p.adjusted).toOption

theorem getElem?_calculate (hp : d.settings[number]? = some p) (x : Value) :
    (calculate m number x d).2.settings[number]? = some (p.remembering ((p.adjusted x).toOption.or p.current)) := by
  rw [calculate, bind_of_ok (outlet_eq hp)]
  cases hw : p.adjusted x with
  | error e => exact hp
  | ok w =>
    change (d.settings.modify number _)[number]? = _
    rw [getElem?_modify_eq, hp]
    rfl

/-- Gain and offset of an outlet are the numbers `g` and `o`. -/
structure Outlet.Adjusts (p : Outlet) (g o : Float) : Prop where
  gain : p.gain.asFloat? = some (.ok g)
  offset : p.offset.asFloat? = some (.ok o)

/-- What an outlet with the gain `g` and the offset `o` takes a value for: the adjusted voltage, if the value is
a voltage and the adjusted one is not out of bounds. -/
def Outlet.taken (p : Outlet) (g o : Float) : Value → Option Float
  | .quantity q =>
    if q.checkUnits "V" = .ok ⟨⟩ ∧ (Value.real (q.magnitude * g + o)).less p.lowest = .ok false ∧
      (Value.real (q.magnitude * g + o)).greater p.highest = .ok false then some (q.magnitude * g + o) else none
  | _ => none

theorem scaled_real {v : Value} (h : v.asFloat? = some (.ok g)) (x : Float) :
    (Value.real x).scaled v = .ok (.real (x * g)) := by
  cases v with
  | int n =>
    have hn : Value.floatOfInt n = .ok g := Option.some.inj h
    change (do return Value.real (x * (← Value.floatOfInt n)) : Outcome Value) = _
    rw [hn]
    rfl
  | flag b | real y => cases h; rfl
  | _ => cases h

theorem real_plus {v : Value} (h : v.asFloat? = some (.ok o)) (x : Float) :
    (Value.real x).plus v = .ok (.real (x + o)) := by
  cases v with
  | int n =>
    have hn : Value.floatOfInt n = .ok o := Option.some.inj h
    change (do return Value.real (x + (← Value.floatOfInt n)) : Outcome Value) = _
    rw [hn]
    rfl
  | flag b | real y => cases h; rfl
  | _ => cases h

theorem adjusted_real (h : p.Adjusts g o) (x : Float) : (p.adjusted (.real x)).toOption =
    if (Value.real (x * g + o)).less p.lowest = .ok false ∧ (Value.real (x * g + o)).greater p.highest = .ok false then
      some (.real (x * g + o)) else none := by
  have hsum : (do (← (Value.real x).scaled p.gain).plus p.offset : Outcome Value) = .ok (.real (x * g + o)) := by
    rw [scaled_real h.gain]
    exact real_plus h.offset _
  simp only [Outlet.adjusted, adjustVoltage, hsum]
  rcases (Value.real (x * g + o)).less p.lowest with e | _ | _
  · rfl
  · rcases (Value.real (x * g + o)).greater p.highest with e | _ | _ <;> rfl
  · rcases (Value.real (x * g + o)).greater p.highest with e | _ | _ <;> rfl

theorem noted_eq (h : p.Adjusts g o) (v : Value) : p.noted v = (p.taken g o v).map .real := by
  cases v with
  | quantity q =>
    rw [Outlet.noted, Quantity.toSetting_quantity, Outlet.taken]
    cases hunits : q.checkUnits "V" with
    | error e => rw [if_neg (by simp)]; rfl
    | ok u =>
      change (p.adjusted (.real q.magnitude)).toOption = _
      rw [adjusted_real h]
      simp only [true_and]
      split <;> rfl
  | _ => rfl

theorem exists_voltage {y : Float} (hp : d.settings[number]? = some p) (hy : p.current = some (.real y)) :
    ∃ scale, voltage number d = (.ok (.quantity ⟨y, Quantity.voltDimension, "V", scale⟩), d) := by
  obtain ⟨scale, hreading⟩ := Quantity.exists_ofReading_volt y
  refine ⟨scale, (bind_of_ok (outlet_eq hp)).trans ?_⟩
  simp only [hy, hreading]
  rfl

/-! ### What a conversation leaves alone -/

/-- What is on this side of the line. -/
def aside (d : Desk Settings β) : Settings × List String :=
  (d.settings, d.status)

theorem keeps_onLine {α : Type} (act : Act β α) : Keeps aside (Desk.onLine act : Use β α) :=
  fun _ => rfl

theorem keeps_outlet (number : Nat) : Keeps aside (outlet number : Use β Outlet) := by
  refine Keeps.bind (fun _ => rfl) fun outlets => ?_
  split
  · exact .pure _
  · exact .fail _

/-- Gain and offset of an outlet. -/
def adjustment (number : Nat) (d : Desk Settings β) : Option (Value × Value) :=
  d.settings[number]?.map fun p => (p.gain, p.offset)

/-- Gain and offset of an outlet, and what is going on. -/
def bearing (number : Nat) (d : Desk Settings β) : Option (Value × Value) × List String :=
  (adjustment number d, d.status)

theorem keeps_bearing {α : Type} {act : Use β α} (h : Keeps aside act) : Keeps (bearing number) act :=
  fun d => congrArg (fun v : Settings × List String => (v.1[number]?.map fun p => (p.gain, p.offset), v.2)) (h d)

theorem bearing_change (number : Nat) (f : Outlet → Outlet) (d : Desk Settings β) :
    bearing number (change number f d).2 = (d.settings[number]?.map fun p => ((f p).gain, (f p).offset), d.status) := by
  have hmodify : (change number f d).2.settings[number]? = d.settings[number]?.map f := getElem?_modify_eq ..
  rw [bearing, adjustment, hmodify, Option.map_map]
  rfl

variable [Line β]

theorem keeps_exchange (message reply : String) : Keeps aside (exchange message reply : Use β PUnit) := by
  refine Keeps.bind ?_ fun _ => .pure _
  refine (keeps_onLine _).bind fun _ => (keeps_onLine _).bind fun raw => ?_
  cases raw with
  | none => exact .fail _
  | some raw =>
    dsimp only
    split
    · exact .fail _
    · exact .pure _

theorem keeps_choose (p : Outlet) : Keeps aside (choose m p : Use β PUnit) := by
  unfold choose
  dsimp only
  split
  · refine (keeps_exchange _ _).bind fun _ => (keeps_exchange _ _).bind fun _ => (keeps_exchange _ _).bind fun _ => ?_
    refine (keeps_exchange _ _).bind fun _ => (keeps_exchange _ _).bind fun _ => (Keeps.lift _).bind fun _ => ?_
    exact keeps_exchange _ _
  · exact (keeps_exchange _ _).bind fun _ => (Keeps.lift _).bind fun _ => keeps_exchange _ _

theorem keeps_converse (message : String) : Keeps aside (converse m number message : Use β PUnit) := by
  unfold converse
  dsimp only
  split
  · exact .fail _
  · exact (keeps_outlet number).bind fun p => (keeps_choose p).bind fun _ => keeps_exchange _ _

/-! ### Attempts -/

/-- A voltage within the bounds is remembered, whatever becomes of the conversation. -/
theorem getElem?_setVoltage (hp : d.settings[number]? = some p) (v : Value) :
    (setVoltage m number v d).2.settings[number]? = some (p.remembering ((p.noted v).or p.current)) := by
  unfold setVoltage Outlet.noted
  cases hx : Quantity.toSetting "V" v (.real 1.0) with
  | error e => exact hp
  | ok x =>
    change (((calculate m number x >>= fun code => _ : Use β PUnit) d).2).settings[number]? = _
    refine Eq.trans ?_ (getElem?_calculate (m := m) hp x)
    refine Keeps.view_bind (show ∀ _, Keeps (fun d : Desk Settings β => d.settings[number]?) _ from fun code d => ?_) d
    exact congrArg (fun v : Settings × List String => v.1[number]?) <| ((keeps_outlet number).bind fun p =>
      (Keeps.lift _).bind fun _ => (Keeps.lift _).bind fun message => keeps_converse message) d

/-- Voltages are set one after the other, and failures are ignored. -/
def attempts (m : Model) (number : Nat) (vs : List Value) : Use β PUnit :=
  vs.forM fun v => discard (attempt (setVoltage m number v))

theorem getElem?_attempts (hp : d.settings[number]? = some p) (vs : List Value) :
    (attempts m number vs d).2.settings[number]? =
      some (p.remembering (((vs.filterMap p.noted).getLast?).or p.current)) := by
  induction vs generalizing d p with
  | nil => exact hp
  | cons v vs ih =>
    have hstep : attempts m number (v :: vs) d = attempts m number vs (setVoltage m number v d).2 := rfl
    have hnoted (current : Option Value) : (p.remembering current).noted = p.noted := rfl
    rw [hstep, ih (getElem?_setVoltage hp v), hnoted]
    cases hv : p.noted v with
    | none => rw [filterMap_cons_none hv]; rfl
    | some w =>
      rw [filterMap_cons_some hv, getLast?_cons]
      cases (vs.filterMap p.noted).getLast? <;> rfl

theorem noted_of_setVoltage {v : Value} (hp : d.settings[number]? = some p)
    (h : (setVoltage m number v d).1 = .ok ⟨⟩) : (p.noted v).isSome := by
  have hset : setVoltage m number v d = (.ok ⟨⟩, (setVoltage m number v d).2) := Prod.ext h rfl
  obtain ⟨x, (hx : Quantity.toSetting "V" v (.real 1.0) = .ok x), hset⟩ := lift_bind_eq_ok.mp hset
  obtain ⟨code, d₁, hcode, -⟩ := bind_eq_ok.mp hset
  rw [calculate, bind_of_ok (outlet_eq hp)] at hcode
  obtain ⟨w, (hw : p.adjusted x = .ok w), -⟩ := lift_bind_eq_ok.mp hcode
  rw [Outlet.noted, hx]
  change (p.adjusted x).toOption.isSome
  rw [hw]
  rfl

/-- After some attempts to set a voltage, one that succeeded and others, the voltage is read that was last within the
bounds after its adjustment, whether setting it succeeded or not. -/
theorem voltage_after_attempts (hp : d.settings[number]? = some p) (hg : p.Adjusts g o) {before later : List Value}
    {v : Value} (h : (setVoltage m number v (attempts m number before d).2).1 = .ok ⟨⟩) :
    ∃ q scale, v = .quantity q ∧ (voltage number (attempts m number (before ++ v :: later) d).2).1 =
      .ok (.quantity ⟨((later.filterMap (p.taken g o)).getLast?).getD (q.magnitude * g + o),
        Quantity.voltDimension, "V",
        scale⟩) := by
  have hnoted := noted_of_setVoltage (getElem?_attempts hp before) h
  change (p.noted v).isSome at hnoted
  rw [noted_eq hg, Option.isSome_map] at hnoted
  obtain ⟨y, hy⟩ := Option.isSome_iff_exists.mp hnoted
  obtain ⟨q, rfl, rfl⟩ : ∃ q, v = .quantity q ∧ q.magnitude * g + o = y := by
    cases v with
    | quantity q =>
      rw [Outlet.taken] at hy
      split at hy
      · exact ⟨q, rfl, Option.some.inj hy⟩
      · cases hy
    | _ => cases hy
  have hlast : ((before ++ .quantity q :: later).filterMap p.noted).getLast? =
      some (.real (((later.filterMap (p.taken g o)).getLast?).getD (q.magnitude * g + o))) := by
    rw [funext (noted_eq hg), ← map_filterMap, filterMap_append, filterMap_cons_some hy, getLast?_map,
      getLast?_append, getLast?_cons]
    rfl
  have hafter := getElem?_attempts (m := m) hp (before ++ .quantity q :: later)
  rw [hlast] at hafter
  obtain ⟨scale, hvoltage⟩ := exists_voltage hafter rfl
  exact ⟨q, scale, rfl, congrArg Prod.fst hvoltage⟩

/-- An outlet that doubles every voltage and adds an eighth of a volt. -/
def doublingOutlet : Outlet where
  number := 0
  gain := .real 2.0
  offset := .real 0.125
  lowest := .int (-1)
  highest := .int 1

def doubling : Desk Settings (Simulated (Simulation.Memory .sixteen)) where
  settings := [doublingOutlet]
  line := { memory := { outlets := [{}] } }

/-- A quarter of a volt is set, and then a voltage that is out of bounds. -/
theorem voltage_after_attempts_doubling : (setVoltage .sixteen 0 (.quantity (volts 0.25)) doubling).1 = .ok ⟨⟩ ∧
    ∃ scale, (voltage 0 (attempts .sixteen 0 [.quantity (volts 0.25), .quantity (volts 0.75)] doubling).2).1 =
      .ok (.quantity ⟨0.625, Quantity.voltDimension, "V", scale⟩) := by
  have hset : (setVoltage .sixteen 0 (.quantity (volts 0.25)) doubling).1 = .ok ⟨⟩ := by decide +kernel
  have hlast : (([.quantity (volts 0.75)].filterMap (doublingOutlet.taken 2.0 0.125)).getLast?).getD
      ((volts 0.25).magnitude * 2.0 + 0.125) = 0.625 := by
    decide +kernel
  obtain ⟨q, scale, hq, hvoltage⟩ := @voltage_after_attempts _ .sixteen 0 doubling doublingOutlet 2.0 0.125
    _ rfl ⟨rfl, rfl⟩ [] [.quantity (volts 0.75)] _ hset
  cases hq
  rw [hlast] at hvoltage
  exact ⟨hset, scale, hvoltage⟩

/-! ### Tuning -/

variable {measure : Nat → Use β Value}

theorem keeps_setVoltage (v : Value) : Keeps (bearing number) (setVoltage m number v : Use β PUnit) := by
  refine (Keeps.lift _).bind fun x => Keeps.bind ?_ fun code => keeps_bearing <| (keeps_outlet number).bind fun p =>
    (Keeps.lift _).bind fun _ => (Keeps.lift _).bind fun message => keeps_converse message
  refine (keeps_bearing (keeps_outlet number)).bind fun p => (Keeps.lift _).bind fun w => Keeps.bind ?_ fun _ =>
    .lift _
  exact bearing_change number _

theorem keeps_tryOut (h : ∀ k, Keeps (bearing number) (measure k)) (k : Nat) (xs : List Float) :
    Keeps (bearing number) (tryOut m number measure k xs) := by
  induction xs generalizing k with
  | nil => exact .pure _
  | cons x xs ih =>
    refine (Keeps.lift _).bind fun q => (keeps_setVoltage _).bind fun _ => Keeps.bind ?_ fun _ => ?_
    · exact fun d => Preserves.sleep (P := fun d' => bearing number d' = bearing number d) (fun _ _ hd => hd) _ d rfl
    · exact (h k).bind fun v => (Keeps.lift _).bind fun q => (ih (k + 1)).bind fun ys => .pure _

/-- The rounds of a tuning: without any adjustment voltages are set and measured, and a line is put through them. -/
def rounds (m : Model) (number : Nat) (measure : Nat → Use β Value) (low high : Value) : Use β (Float × Float) := do
  change number fun p => { p with gain := .int 1, offset := .int 0 }
  let count ← trialCount low high
  let wanted := Number.spaced (← low.toFloat) (← high.toFloat) count
  Number.fitLine (← tryOut m number measure 0 wanted) wanted

/-- A bound that is not given is that of the outlet. -/
def boundOr (v bound : Value) : Value :=
  if v matches .none then bound else v

/-- What is done after the rounds of a tuning: gain and offset are set, and then a last voltage. -/
def settle (m : Model) (number : Nat) (p : Outlet) (final : Value) (isKept : Bool) (line : Float × Float) :
    Use β (Float × Float) := do
  change number fun q =>
    if isKept then { q with gain := .real line.1, offset := .real line.2 }
    else { q with gain := p.gain, offset := p.offset }
  setVoltage m number (.quantity (← final.toQuantity (.text "V")))
  return line

theorem tune_eq (hp : d.settings[number]? = some p) (low high final : Value) (isKept : Bool)
    {x : Outcome (Float × Float)} {settings : Settings} {line : β}
    (h : (do settle m number p final isKept (← rounds m number measure (boundOr low p.lowest) (boundOr high p.highest)))
      ⟨d.settings, d.status ++ [s!"Autotuning port {number}"], d.line⟩ =
        (x, ⟨settings, d.status ++ [s!"Autotuning port {number}"], line⟩)) :
    tune m number measure low high final isKept d = (x, ⟨settings, d.status, line⟩) := by
  refine Desk.busy_eq (Eq.trans ?_ h)
  have hoverlay : outlet number ⟨d.settings, d.status ++ [s!"Autotuning port {number}"], d.line⟩ = (.ok p, _) :=
    outlet_eq hp
  rw [bind_of_ok hoverlay]
  simp only [rounds, settle, bind_assoc]
  rfl

theorem bearing_rounds (hp : d.settings[number]? = some p) (hmeasure : ∀ k, Keeps (bearing number) (measure k))
    (low high : Value) :
    bearing number (rounds m number measure low high d).2 = (some (.int 1, .int 0), d.status) := by
  have hchg := bearing_change number (fun p => { p with gain := .int 1, offset := .int 0 }) d
  rw [hp] at hchg
  refine Eq.trans (Keeps.view_bind (fun _ => ?_) d) hchg
  exact (Keeps.lift _).bind fun count => (Keeps.lift _).bind fun a => (Keeps.lift _).bind fun b =>
    (keeps_tryOut hmeasure 0 _).bind fun ys => .lift _

theorem bearing_settle (final : Value) (isKept : Bool) (line : Float × Float) {status : List String} {v : Value × Value}
    (h : bearing number d = (some v, status)) : bearing number (settle m number p final isKept line d).2 =
      (some (if isKept then (.real line.1, .real line.2) else (p.gain, p.offset)), status) := by
  obtain ⟨hadj, rfl⟩ := Prod.mk.inj h
  obtain ⟨q, hq, -⟩ := Option.map_eq_some_iff.mp hadj
  refine Eq.trans (Keeps.view_bind (fun _ => ?_) d) ((bearing_change number _ d).trans ?_)
  · exact (Keeps.lift _).bind fun q => (keeps_setVoltage _).bind fun _ => .pure _
  · rw [hq]
    cases isKept <;> rfl

/-- The list of what is going on is the same after a tuning. If one of its rounds fails, the outlet is left without
any adjustment. Otherwise it has the gain and the offset that were found or, if they are not wanted, those from
before. -/
theorem adjustment_after_tune (hp : d.settings[number]? = some p) (hmeasure : ∀ k, Keeps (bearing number) (measure k))
    (low high final : Value) (isKept : Bool) :
    ∃ x d₁ y d', rounds m number measure (boundOr low p.lowest) (boundOr high p.highest)
        ⟨d.settings, d.status ++ [s!"Autotuning port {number}"], d.line⟩ = (x, d₁) ∧
      tune m number measure low high final isKept d = (y, d') ∧ d'.status = d.status ∧
      (∀ e, x = .error e → y = .error e ∧ adjustment number d' = some (.int 1, .int 0)) ∧
      ∀ line, x = .ok line → (∀ a, y = .ok a → a = line) ∧
        adjustment number d' = some (if isKept then (.real line.1, .real line.2) else (p.gain, p.offset)) := by
  have hp' : (⟨d.settings, d.status ++ [s!"Autotuning port {number}"], d.line⟩ : Desk Settings β).settings[number]? =
      some p := hp
  have hbearing := bearing_rounds (m := m) hp' hmeasure (boundOr low p.lowest) (boundOr high p.highest)
  rcases hrounds : rounds m number measure (boundOr low p.lowest) (boundOr high p.highest)
    ⟨d.settings, d.status ++ [s!"Autotuning port {number}"], d.line⟩ with ⟨e | line, d₁⟩
  · rw [hrounds] at hbearing
    obtain ⟨settings, status, line'⟩ := d₁
    obtain ⟨hadjustment, rfl⟩ := Prod.mk.inj hbearing
    refine ⟨_, _, _, _, rfl, tune_eq hp low high final isKept (bind_of_error hrounds), rfl, ?_, nofun⟩
    rintro _ ⟨⟩
    exact ⟨rfl, hadjustment⟩
  · rw [hrounds] at hbearing
    have hsettle := bearing_settle (m := m) (p := p) final isKept line hbearing
    rcases hy : settle m number p final isKept line d₁ with ⟨y, settings, status, line'⟩
    rw [hy] at hsettle
    obtain ⟨hadjustment, rfl⟩ := Prod.mk.inj hsettle
    refine ⟨_, _, _, _, rfl, tune_eq hp low high final isKept ((bind_of_ok hrounds).trans hy), rfl, nofun, ?_⟩
    rintro _ ⟨⟩
    refine ⟨?_, hadjustment⟩
    rintro a rfl
    obtain ⟨_, _, -, hy⟩ := bind_eq_ok.mp hy
    obtain ⟨_, -, hy⟩ := lift_bind_eq_ok.mp hy
    obtain ⟨_, _, -, hy⟩ := bind_eq_ok.mp hy
    exact (pure_eq_ok.mp hy).1

/-- A tuning between bounds in the wrong order fails, and the outlet is left without its gain and its offset. -/
theorem adjustment_after_tune_doubling : adjustment 0 doubling = some (.real 2.0, .real 0.125) ∧
    ∃ d', tune .sixteen 0 (fun _ => pure (.real 0.5)) (.int 1) (.int (-1)) (.int 0) true doubling =
      (.error (.because .badValue "1 > -1"), d') ∧ d'.status = [] ∧ adjustment 0 d' = some (.int 1, .int 0) := by
  obtain ⟨x, d₁, y, d', hrounds, htune, hstatus, herror, -⟩ := @adjustment_after_tune _ .sixteen 0 doubling
    doublingOutlet _ (fun _ => pure (.real 0.5)) rfl (fun _ => .pure _) (.int 1) (.int (-1)) (.int 0) true
  have hx : x = .error (.because .badValue "1 > -1") := (congrArg Prod.fst hrounds).symm
  obtain ⟨rfl, hadjustment⟩ := herror _ hx
  exact ⟨rfl, d', htune, hstatus, hadjustment⟩

end VoltageSource
end LabBench
