import LabBench.Waveform.Generator
import Mathlib.Data.List.Induction
import Mathlib.Order.Nat
/-!
# Levels of markers

A marker is given by its changes, which may be made in any order and more than once at the same position. At every
point it has the level of the last change up to there. Its levels go on to the last change, and a waveform goes on as
far as all of its markers do.

## Main results

* `levels_of_marked`
-/

namespace LabBench

open List

namespace Marker

variable {m : Marker} {start length : Nat} {level : Value} {e : Nat × Value}

/-- The positions of the changes increase. -/
def Ordered (m : Marker) : Prop :=
  m.Pairwise (·.1 < ·.1)

theorem eq_or_mem_of_mem_set {position : Nat} (h : e ∈ m.set position level) : e = (position, level) ∨ e ∈ m := by
  induction m with
  | nil => exact .inl (mem_singleton.mp h)
  | cons d rest ih =>
    rw [Marker.set] at h
    grind

theorem Ordered.set (h : Ordered m) (position : Nat) (level : Value) : Ordered (m.set position level) := by
  induction m with
  | nil => exact pairwise_singleton ..
  | cons d rest ih =>
    obtain ⟨hlt, hrest⟩ := pairwise_cons.mp h
    rw [Marker.set]
    split
    · rename_i hpos
      exact h.cons (forall_mem_cons.mpr ⟨hpos, fun c hc => Nat.lt_trans hpos (hlt c hc)⟩)
    · split
      · rename_i heq
        exact hrest.cons (heq ▸ hlt)
      · refine (ih hrest).cons fun c hc => ?_
        rcases eq_or_mem_of_mem_set hc with rfl | hc
        · dsimp only
          omega
        · exact hlt c hc

theorem extent_eq (m : Marker) : m.extent = (m.map (·.1 + 1)).max?.getD 0 := by
  change m.foldl (fun n e => max n (e.1 + 1)) 0 = _
  rw [← foldl_map, foldl_max, Nat.zero_max]

theorem extent_cons (e : Nat × Value) (m : Marker) : extent (e :: m) = max (e.1 + 1) m.extent := by
  rw [extent_eq, extent_eq, map_cons, max?_cons]
  cases (m.map (·.1 + 1)).max? with
  | none => exact (Nat.max_zero _).symm
  | some n => rfl

/-! ### Levels -/

theorem length_levelsFrom (h : Ordered m) (hstart : ∀ e ∈ m, start ≤ e.1) :
    (levelsFrom length start level m).length = max length m.extent - start := by
  induction m generalizing start level with
  | nil => simp [levelsFrom, extent]
  | cons e rest ih =>
    obtain ⟨hlt, hrest⟩ := pairwise_cons.mp h
    have hfst := hstart e mem_cons_self
    rw [levelsFrom, length_append, length_replicate, length_cons, ih hrest hlt, extent_cons]
    omega

/-- The level at a point is that of the last change up to there, or the level at the start. -/
theorem getElem?_levelsFrom (h : Ordered m) (hstart : ∀ e ∈ m, start ≤ e.1) {i : Nat} (hi : start ≤ i)
    (hlen : i < max length m.extent) :
    (∀ e ∈ m, e.1 ≤ i → (∀ d ∈ m, d.1 ≤ i → d.1 ≤ e.1) → (levelsFrom length start level m)[i - start]? = some e.2) ∧
      ((∀ e ∈ m, i < e.1) → (levelsFrom length start level m)[i - start]? = some level) := by
  induction m generalizing start level with
  | nil =>
    refine ⟨nofun, fun _ => ?_⟩
    rw [levelsFrom, getElem?_replicate_of_lt]
    have : extent [] = 0 := rfl
    omega
  | cons c rest ih =>
    obtain ⟨hlt, hrest⟩ := pairwise_cons.mp h
    have hfst := hstart c mem_cons_self
    rw [extent_cons] at hlen
    rw [levelsFrom]
    rcases Nat.lt_trichotomy i c.1 with hbefore | rfl | hafter
    · refine ⟨forall_mem_cons.mpr ⟨fun _ _ => by omega, fun e he _ => ?_⟩, fun _ => ?_⟩
      · have hlate := hlt e he
        omega
      · rw [getElem?_append_left (by rw [length_replicate]; omega), getElem?_replicate_of_lt (by omega)]
    · rw [getElem?_append_right length_replicate.le, length_replicate, Nat.sub_self]
      refine ⟨forall_mem_cons.mpr ⟨fun _ _ => rfl, fun e he _ _ => ?_⟩, fun hnone => ?_⟩
      · have hlate := hlt e he
        omega
      · exact absurd (hnone c mem_cons_self) (Nat.lt_irrefl c.1)
    · have hlater := @ih (c.1 + 1) c.2 hrest hlt hafter (by omega)
      have hindex : i - start - (c.1 - start) = i - (c.1 + 1) + 1 := by omega
      rw [getElem?_append_right (length_replicate.trans_le (by omega)), length_replicate, hindex, getElem?_cons_succ]
      refine ⟨forall_mem_cons.mpr ⟨fun _ hlast => hlater.2 fun d hd => ?_, fun e he hle hlast => ?_⟩, fun hnone => ?_⟩
      · have hlate := hlt d hd
        have hnot := hlast d (mem_cons_of_mem c hd)
        omega
      · exact hlater.1 e he hle fun d hd => hlast d (mem_cons_of_mem c hd)
      · have hnot := hnone c mem_cons_self
        omega

end Marker

namespace Generator

/-- A generator after changes of its markers, each with the name of the marker, the position and the level. -/
def marked (g : Generator) (changes : List (Value × Nat × Value)) : Generator :=
  { g with markers := changes.foldl (fun ms c => setMarker c.1 c.2.1 c.2.2 ms) [] }

theorem ordered_setMarker {ms : List (Value × Marker)} (h : ∀ e ∈ ms, e.2.Ordered) (name : Value) (position : Nat)
    (level : Value) : ∀ e ∈ setMarker name position level ms, e.2.Ordered := by
  induction ms with
  | nil => exact forall_mem_singleton.mpr (pairwise_singleton ..)
  | cons d rest ih =>
    obtain ⟨hd, hrest⟩ := forall_mem_cons.mp h
    rw [setMarker]
    split
    · exact forall_mem_cons.mpr ⟨hd.set position level, hrest⟩
    · exact forall_mem_cons.mpr ⟨hd, ih hrest⟩

theorem ordered_marked (g : Generator) (changes : List (Value × Nat × Value)) :
    ∀ e ∈ (g.marked changes).markers, e.2.Ordered :=
  foldlRecOn changes _ (motive := fun ms : List (Value × Marker) => ∀ e ∈ ms, e.2.Ordered) (fun _ => nofun)
    fun _ h c _ => ordered_setMarker h c.1 c.2.1 c.2.2

theorem size_data (g : Generator) : g.waveform.data.size = max g.wave.size g.markedLength := by
  simp only [waveform, Array.size_append, Array.size_replicate]
  omega

theorem extent_le_markedLength {g : Generator} {e : Value × Marker} (h : e ∈ g.markers) :
    e.2.extent ≤ g.markedLength := by
  have heq : g.markedLength = (g.markers.map (·.2.extent)).max?.getD 0 := by
    change g.markers.foldl (fun n e => max n e.2.extent) 0 = _
    rw [← foldl_map, foldl_max, Nat.zero_max]
  rw [heq]
  exact le_max?_getD_of_mem (mem_map_of_mem h)

/-- The levels of a marker go on up to a given length and to the last change. At every point it has the level of the
last change up to there, or is off. However the markers have been changed, their changes are in order, and in the
waveform all of them are as long as the data. -/
theorem levels_of_marked (g : Generator) (changes : List (Value × Nat × Value)) :
    (∀ m : Marker, m.Ordered → ∀ length,
      (m.levels length).length = max length ((m.map (·.1 + 1)).max?.getD 0) ∧
      ∀ i < (m.levels length).length,
        (∀ c ∈ m, c.1 ≤ i → (∀ d ∈ m, d.1 ≤ i → d.1 ≤ c.1) → (m.levels length)[i]? = some c.2) ∧
        ((∀ c ∈ m, i < c.1) → (m.levels length)[i]? = some (.flag false))) ∧
      (∀ e ∈ (g.marked changes).markers, e.2.Ordered) ∧
      ∀ e ∈ (g.marked changes).waveform.markers, e.2.length = (g.marked changes).waveform.data.size := by
  have hord := ordered_marked g changes
  have hlen {m : Marker} (hm : m.Ordered) (length : Nat) : (m.levels length).length = max length m.extent :=
    Marker.length_levelsFrom hm fun _ _ => Nat.zero_le _
  refine ⟨fun m hm length => ?_, hord, fun e he => ?_⟩
  · rw [← Marker.extent_eq]
    refine ⟨hlen hm length, fun i hi => ?_⟩
    exact Marker.getElem?_levelsFrom hm (fun _ _ => Nat.zero_le _) (Nat.zero_le i) (hlen hm length ▸ hi)
  · obtain ⟨d, hd, rfl⟩ := mem_map.mp he
    refine (hlen (hord d hd) _).trans (Nat.max_eq_left ?_)
    exact (extent_le_markedLength hd).trans ((Nat.le_max_right _ _).trans_eq (size_data _).symm)

end Generator

end LabBench
