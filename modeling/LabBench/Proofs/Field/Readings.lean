import LabBench.Instrument.FieldSupply.Basic
import LabBench.Proofs.Number.Printing
import LabBench.Proofs.Quantity.Conversion
/-!
# Readings of fields

A field is read as a number of tesla. The base units of the field give the same number, so a field that is sent and
read back is the same, digit for digit. Fields are compared up to a tolerance; what is not a number does not even equal
itself, and whatever is reckoned from it is not a number either.
-/

namespace LabBench

open Number Float.Model

/-! ### Equality of numbers -/

namespace Number

theorem isNaN_eq (x : Float) : x.isNaN = (parts x).isNaN := rfl

theorem beq_self_eq (x : Float) : (x == x) = !x.isNaN := by
  rw [beq_eq, isNaN_eq]
  generalize parts x = u
  cases u with
  | infinity s => cases s <;> rfl
  | notANumber => rfl
  | zero s => cases s <;> rfl
  | finite s => cases s <;> simp [Float.Model.UnpackedFloat.beq, Float.Model.UnpackedFloat.compare,
      Float.Model.UnpackedFloat.isNaN]

theorem isFinite_of_isNaN {x : Float} (h : x.isNaN = true) : x.isFinite = false := by
  rw [isNaN_eq] at h
  rw [isFinite_eq]
  generalize parts x = u at h ⊢
  cases u with
  | notANumber | infinity => rfl
  | zero | finite => cases h

variable {x : Float} (h : x.isNaN = true)

include h

theorem parts_of_isNaN : parts x = .notANumber := by
  rw [isNaN_eq] at h
  generalize parts x = u at h
  cases u with
  | notANumber => rfl
  | infinity | zero | finite => cases h

theorem eq_of_isNaN : x = 0.0 / 0.0 :=
  eq_of_parts_eq (parts_of_isNaN h)

theorem isNaN_mul (y : Float) : (x * y).isNaN = true := by
  rw [isNaN_eq, parts_mul, parts_of_isNaN h, UnpackedFloat.mul]
  rfl

theorem isNaN_div (y : Float) : (x / y).isNaN = true := by
  rw [isNaN_eq, parts_div, parts_of_isNaN h, UnpackedFloat.div]
  rfl

theorem isNaN_sub (y : Float) : (x - y).isNaN = true := by
  rw [isNaN_eq,
    show parts (x - y) = (Float.Model.pack (UnpackedFloat.sub .binary64 (parts x) (parts y))).unpack from rfl,
    parts_of_isNaN h, UnpackedFloat.sub]
  rfl

end Number

theorem Magnitude.close_self (x : Float) : Magnitude.close x x = !x.isNaN := by
  have hsame : Magnitude.same x x = !x.isNaN := beq_self_eq x
  rw [Magnitude.close, hsame]
  cases h : x.isNaN with
  | false => rw [Bool.not_false, Bool.or_true]
  | true =>
    have hfin : Magnitude.isFinite x = false := isFinite_of_isNaN h
    rw [hfin]
    rfl

/-! ### Tesla -/

namespace Quantity

def fieldDimension : Dimension Float :=
  Dimension.ofTerms [⟨0, .tesla, none⟩]

theorem parse_tesla : Unit.parse (K := Float) "T" = .ok [⟨0, .tesla, none⟩] := by
  with_unfolding_all rfl

theorem exists_findScale_self (decade : ℤ) (x : Float) : ∃ scale, findScale decade x x = .ok scale := by
  unfold findScale
  split
  · exact ⟨_, rfl⟩
  · rename_i hsame
    have hnan : x.isNaN = true := by
      have hself : Magnitude.same x x = !x.isNaN := beq_self_eq x
      rw [hself] at hsame
      simpa using hsame
    have hlog : Magnitude.logTen? (Magnitude.abs x) = some (Float.log10 (Float.abs x)) := by
      rw [eq_of_isNaN hnan]
      exact if_neg (by decide +kernel)
    rw [hlog]
    exact ⟨_, rfl⟩

theorem exists_make_coherent {units : String} {terms : List (Unit.Term Float)} (hparse : Unit.parse units = .ok terms)
    (hdecade : Unit.decade terms = 0) (hexps : checkExponents terms = .ok ⟨⟩) (hfac : unitFactor terms = 1.0)
    (x : Float) : ∃ scale, make x units = .ok ⟨x, Dimension.ofTerms terms, units, scale⟩ := by
  have hten : Magnitude.tenPow? (K := Float) 0 = some 1.0 := by decide +kernel
  have hx : 1.0 * x = x := by rw [float_mul_comm, float_mul_one]
  obtain ⟨scale, hscal⟩ := exists_findScale_self 0 x
  refine ⟨scale, ?_⟩
  unfold make
  rw [hparse]
  simp only [Except.mapError, bind, Except.bind, hdecade, hten, hexps, hfac, float_mul_one, hx, hscal]
  rfl

theorem exists_make_tesla (x : Float) : ∃ scale, make x "T" = .ok ⟨x, fieldDimension, "T", scale⟩ :=
  exists_make_coherent parse_tesla rfl rfl (by decide +kernel) x

theorem ofReading_real (units : String) (x y : Float) :
    ofReading (.text units) (.real x) (.real y) = make (x * y) units :=
  rfl

theorem exists_ofReading_tesla (x : Float) :
    ∃ scale, ofReading (.text "T") (.real x) (.real 1.0) = .ok ⟨x, fieldDimension, "T", scale⟩ := by
  rw [ofReading_real, float_mul_one]
  exact exists_make_tesla x

theorem toSetting_quantity (units : String) (q : Quantity Float) :
    toSetting units (.quantity q) (.real 1.0) = q.checkUnits units >>= fun _ => .ok (.real q.magnitude) := by
  have hunits : (Value.quantity q).asQuantityIn units = q.checkUnits units >>= fun _ => .ok q := rfl
  rw [toSetting, hunits]
  cases q.checkUnits units with
  | error e => rfl
  | ok u => exact congrArg (fun x => Except.ok (Value.real x)) (float_mul_one q.magnitude)

theorem eq_of_toSetting_tesla {q : Quantity Float} {v : Value} (h : toSetting "T" (.quantity q) (.real 1.0) = .ok v) :
    v = .real q.magnitude := by
  rw [toSetting_quantity] at h
  obtain ⟨_, -, h⟩ := Outcome.bind_eq_ok.mp h
  exact (Except.ok.inj h).symm

theorem isNaN_of_sub {p q c : Quantity Float} (h : q.sub p = .ok c) (hq : q.magnitude.isNaN = true) :
    c.magnitude.isNaN = true := by
  obtain ⟨_, -, h⟩ := Outcome.bind_eq_ok.mp h
  obtain ⟨renewed, hrenew, h⟩ := Outcome.bind_eq_ok.mp h
  cases h
  obtain ⟨x, hx, hmake⟩ := Outcome.bind_eq_ok.mp hrenew
  obtain ⟨factor, ten, hmag⟩ := exists_of_make hmake
  refine isNaN_sub ?_ _
  rw [hmag, float_mul_comm]
  refine isNaN_mul (isNaN_mul ?_ ten) factor
  unfold inUnits at hx
  split at hx
  · cases hx
    rw [eq_of_isNaN (isNaN_div hq _)]
    decide +kernel
  · cases hx

theorem equal_eq {p q r : Quantity Float} {b : Bool} (h : p.equal q = .ok b) (hr : r.dimension = p.dimension) :
    r.equal q = .ok (Magnitude.close r.magnitude q.magnitude) := by
  obtain ⟨_, hchk, -⟩ := Outcome.bind_eq_ok.mp h
  have hchk' : r.checkDimension q = .ok ⟨⟩ := by
    rw [checkDimension, sameDimension, hr]
    exact hchk
  rw [equal, hchk']
  rfl

end Quantity

/-! ### Divisions -/

/-- A computation that may fail, but not because of a division by zero. -/
def Outcome.Undivided {α : Type} (x : Outcome α) : Prop :=
  ∀ e, x = .error e → e.kind ≠ .zeroDivision

theorem Outcome.undivided_ok {α : Type} (a : α) : Outcome.Undivided (.ok a) :=
  nofun

theorem Outcome.Undivided.bind {α β : Type} {x : Outcome α} {f : α → Outcome β} (h : x.Undivided)
    (hf : ∀ a, (f a).Undivided) : (x >>= f : Outcome β).Undivided := by
  intro e he
  rcases Outcome.bind_eq_error.mp he with hx | ⟨a, -, ha⟩
  · exact h e hx
  · exact hf a e ha

namespace Quantity

variable (p q : Quantity Float)

theorem undivided_make (x : Float) (units : String) : (make x units).Undivided := by
  refine .bind ?_ fun terms => ?_
  · cases Unit.parse (K := Float) units <;> rintro _ ⟨⟩; nofun
  · dsimp only
    split
    · refine Outcome.Undivided.bind (x := checkExponents terms) ?_ fun _ => .bind ?_ fun _ => Outcome.undivided_ok _
      · unfold checkExponents
        split <;> rintro _ ⟨⟩; nofun
      · unfold findScale
        split
        · exact Outcome.undivided_ok _
        · split <;> rintro _ ⟨⟩; nofun
    · rintro _ ⟨⟩; nofun

theorem undivided_inUnits : q.inUnits.Undivided := by
  unfold inUnits
  split <;> rintro _ ⟨⟩; nofun

theorem undivided_checkDimension : (p.checkDimension q).Undivided := by
  unfold checkDimension
  split <;> rintro _ ⟨⟩; nofun

theorem undivided_equal : (p.equal q).Undivided :=
  (undivided_checkDimension p q).bind fun _ => Outcome.undivided_ok _

theorem undivided_minus : ((Value.quantity p).minus (.quantity q)).Undivided := by
  refine Outcome.Undivided.bind ?_ fun _ => Outcome.undivided_ok _
  refine (undivided_checkDimension p q).bind fun _ => Outcome.Undivided.bind ?_ fun _ => Outcome.undivided_ok _
  exact (undivided_inUnits p).bind fun _ => undivided_make _ _

theorem undivided_abs : q.abs.Undivided := by
  unfold Quantity.abs
  split
  · exact (undivided_inUnits q).bind fun _ => undivided_make _ _
  · exact Outcome.undivided_ok _

theorem undivided_toSetting (units : String) : (toSetting units (.quantity q) (.real 1.0)).Undivided := by
  rw [toSetting_quantity]
  refine Outcome.Undivided.bind (.bind ?_ fun isSame => ?_) fun _ => Outcome.undivided_ok _
  · exact (undivided_make _ units).bind fun _ => Outcome.undivided_ok _
  · split <;> rintro _ ⟨⟩; nofun

end Quantity

end LabBench
