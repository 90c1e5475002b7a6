import LabBench.Proofs.Pulse.Admission
/-!
# What becomes of the source of a pulse program

A source is accepted if it can be read and its program is admissible. Otherwise there are reports of what is wrong,
with two exceptions: a token of the source may have no value, and what is wrong may have no location, since it comes
after the end of the last line.

## Main results

* `ofSource_cases`
-/

namespace LabBench

open List

/-! ### Locations -/

/-- A text whose last line is ended, but not by a line feed alone. -/
def Text.OddEnd (cs : List Char) : Prop :=
  ∃ l, (lines cs).getLast? = some l ∧ l.ending ≠ [] ∧ l.ending ≠ ['\n']

namespace Pulse

open Text Cursor

theorem suffix_of_getLast?_lines {cs : List Char} {l : Line} (h : (lines cs).getLast? = some l) : l.ending <:+ cs := by
  obtain ⟨before, hpre⟩ := getLast?_eq_some_iff.mp h
  have hlines := flatMap_toList_lines cs
  rw [hpre, flatMap_append, flatMap_cons, flatMap_nil, append_nil, Line.toList, ← append_assoc] at hlines
  exact ⟨_, hlines⟩

/-- Something is expected behind the last line only if that line ends in another way than by a line feed. -/
theorem oddEnd_of_expecting {source : String} {d : Cursor} (hd : Expecting (.start source) d)
    (h : locateIn d.offset 0 1 (lines source.toList) = none) : OddEnd source.toList := by
  have hpass : (Cursor.start source).Passes (fun _ => True) d := hd.elim Behind.passes And.left
  have htot : d.offset + d.rest.length = source.toList.length := by
    have htot := hpass.total_eq
    rwa [total, total, Cursor.start, Nat.zero_add] at htot
  have hlines : lines source.toList ≠ [] := by
    intro hnil
    have hempty : source.toList = [] := by rw [← flatMap_toList_lines source.toList, hnil, flatMap_nil]
    have hrest : d.rest = [] := by
      rw [hempty, length_nil, Nat.add_eq_zero_iff] at htot
      exact eq_nil_of_length_eq_zero htot.2
    rcases hd with hbehind | ⟨-, hne⟩
    · have hlt := hbehind.length_lt
      rw [hrest, Cursor.start, hempty] at hlt
      exact absurd hlt (Nat.lt_irrefl 0)
    · exact hne hrest
  obtain ⟨before, l, hls⟩ := (eq_nil_or_concat _).resolve_left hlines
  rw [concat_eq_append] at hls
  have hlast : (lines source.toList).getLast? = some l := by rw [hls, getLast?_concat]
  have hpos := locateIn_eq_none h hls
  have hlen := extent_eq hls
  rw [extent_nil] at hlen
  refine ⟨l, hlast, ?_, ?_⟩
  · intro hnil
    rw [hnil, length_nil] at hlen
    omega
  -- after a line feed nothing is expected any more
  · intro hfeed
    rw [hfeed, length_singleton] at hlen
    have hrest : d.rest = [] := eq_nil_of_length_eq_zero (by omega)
    rcases hd with ⟨e, x, hpass, hx, -, hne⟩ | ⟨-, hne⟩
    · have hsuf : [x] <:+ source.toList := by
        have := hpass.suffix
        rwa [hx, hrest] at this
      have hfeed' : ['\n'] <:+ source.toList := hfeed ▸ suffix_of_getLast?_lines hlast
      have hsame : [x] = ['\n'] := suffix_of_suffix_length_le hsuf hfeed' (Nat.le_refl 1) |>.eq_of_length rfl
      exact hne (cons.inj hsame).1
    · exact hne hrest

/-- Where something is expected, this can be reported, or the source has an odd end. -/
theorem syntaxFault_cases {source : String} {d : Cursor} (hd : Expecting (.start source) d) (what : String) :
    (∃ report, syntaxFault source what d.offset = ⟨.pulseSyntax, none, [report]⟩) ∨
      OddEnd source.toList ∧ syntaxFault source what d.offset = .plain .badType := by
  have hpass : (Cursor.start source).Passes (fun _ => True) d := hd.elim Behind.passes And.left
  have hin : d.offset ≤ source.length := by
    have hoff := hpass.offset_le
    rwa [total, Cursor.start, Nat.zero_add, String.length_toList] at hoff
  unfold syntaxFault
  rw [locate_of_le hin]
  cases hloc : locateIn d.offset 0 1 (lines source.toList) with
  | some location => exact .inl ⟨_, rfl⟩
  | none => exact .inr ⟨oddEnd_of_expecting hd hloc, rfl⟩

/-! ### Sources -/

namespace Program

variable (source : String) (folder : Option Folder) (filename : String)

theorem ofSource_of_read {block : Block} (h : read (expandTabs source) = .ok block) :
    ∃ hertz noDelay : Quantity Float, Quantity.make 1.0 "Hz" = .ok hertz ∧ Quantity.make 0.0 "s" = .ok noDelay ∧
      (block.Admissible → ofSource source folder filename = .ok
        { env := block.environment (.blank (expandTabs source) (.quantity hertz) folder)
          block
          filename
          channels := block.outputs.map fun name => (name, none)
          acquisitionDelay := noDelay }) ∧
      (¬block.Admissible → ∃ reports, reports ≠ [] ∧
        ofSource source folder filename = .error ⟨.pulseSyntax, none, reports⟩) := by
  have hhz : (Quantity.make (1.0 : Float) "Hz").isOk = true := by decide +kernel
  have hdelay : (Quantity.make (0.0 : Float) "s").isOk = true := by decide +kernel
  obtain ⟨hertz, hhz⟩ := Outcome.exists_of_isOk hhz
  obtain ⟨noDelay, hdelay⟩ := Outcome.exists_of_isOk hdelay
  have hsrc : ofSource source folder filename =
      ofBlock (.blank (expandTabs source) (.quantity hertz) folder) block noDelay filename := by
    rw [ofSource, h, hhz, hdelay]
    rfl
  have hblank := Environment.isBlank_blank (expandTabs source) (.quantity hertz) folder
  refine ⟨hertz, noDelay, hhz, hdelay, fun hadm => ?_, fun hnot => ?_⟩
  · rw [hsrc]
    exact ofBlock_of_admissible hblank (writtenIn_of_read h) hadm noDelay filename
  · rw [hsrc]
    exact ofBlock_of_not_admissible hblank (writtenIn_of_read h) hnot noDelay filename

section

variable {source folder filename} {block : Block} (h : read (expandTabs source) = .ok block)
include h

theorem exists_ofSource_iff : (∃ p, ofSource source folder filename = .ok p) ↔ block.Admissible := by
  obtain ⟨hertz, noDelay, -, -, hyes, hno⟩ := ofSource_of_read source folder filename h
  constructor
  · rintro ⟨p, hp⟩
    by_contra hnot
    obtain ⟨reports, -, hreject⟩ := hno hnot
    cases hp.symm.trans hreject
  · exact fun hadm => ⟨_, hyes hadm⟩

theorem exists_environment_of_ofSource {p : Program} (hp : ofSource source folder filename = .ok p) :
    p.block = block ∧ ∃ hertz, Quantity.make (1.0 : Float) "Hz" = .ok hertz ∧
      p.env = block.environment (.blank (expandTabs source) (.quantity hertz) folder) := by
  obtain ⟨hertz, noDelay, hhz, -, hyes, -⟩ := ofSource_of_read source folder filename h
  cases hp.symm.trans (hyes ((exists_ofSource_iff h).mp ⟨p, hp⟩))
  exact ⟨rfl, hertz, hhz, rfl⟩

end

/-- A source becomes a program if it can be read and is admissible. Otherwise it is rejected with reports, unless one
of its tokens has no value, or it has an odd end. -/
theorem ofSource_cases : (∃ block p, read (expandTabs source) = .ok block ∧ block.Admissible ∧ p.block = block ∧
        ofSource source folder filename = .ok p) ∨
      (∃ reports, (∀ block, read (expandTabs source) = .ok block → ¬block.Admissible) ∧ reports ≠ [] ∧
        ofSource source folder filename = .error ⟨.pulseSyntax, none, reports⟩) ∨
      (∃ f, Unreadable (expandTabs source).toList f ∧ ofSource source folder filename = .error f) ∨
      OddEnd (expandTabs source).toList ∧ ofSource source folder filename = .error (.plain .badType) := by
  have hfault {f : Fault} (h : read (expandTabs source) = .error f) : ofSource source folder filename = .error f := by
    rw [ofSource, h]
    rfl
  rcases read_cases (expandTabs source) with ⟨block, hread, -⟩ | ⟨what, d, hread, hd⟩ | ⟨f, hread, hf⟩
  · obtain ⟨hertz, noDelay, -, -, hyes, hno⟩ := ofSource_of_read source folder filename hread
    by_cases hadmissible : block.Admissible
    · exact .inl ⟨block, _, hread, hadmissible, rfl, hyes hadmissible⟩
    · obtain ⟨reports, hreports, hsource⟩ := hno hadmissible
      refine .inr (.inl ⟨reports, fun block' hread' => ?_, hreports, hsource⟩)
      cases hread.symm.trans hread'
      exact hadmissible
  · rcases syntaxFault_cases hd what with ⟨report, hreport⟩ | ⟨hodd, hplain⟩
    · refine .inr (.inl ⟨[report], fun block hread' => ?_, cons_ne_nil _ _, ?_⟩)
      · cases hread.symm.trans hread'
      · rw [hfault hread, hreport]
    · exact .inr (.inr (.inr ⟨hodd, hplain ▸ hfault hread⟩))
  · exact .inr (.inr (.inl ⟨f, hf, hfault hread⟩))

-- a sign alone is no number, and there is no location behind the line end
example : (ofSource "int x = +\n").map (fun _ => ()) = .error (.plain .badValue) := by decide +kernel

example : (ofSource "x =\r\n").map (fun _ => ()) = .error (.plain .badType) := by decide +kernel

end Program

end Pulse

end LabBench
