import LabBench.Proofs.Pulse.Tokens
/-!
# How far a pulse program is read

Every place that is noted in a program lies in its source, and all values are there. A source that is no
program has a place at which something else is expected, or a token without a value.
-/

namespace LabBench.Pulse

open Number Text Cursor Statement List

/-! ### Written programs -/

def Content.Written : Content → Prop
  | value v => v ≠ .none
  | dictionary entries => ∀ e ∈ entries, e.2 ≠ .none

/-- The place of an attribute lies in a text of some length. -/
def Target.PlacedIn (n : Nat) : Target → Prop
  | named _ => True
  | part place _ _ => place ≤ n

/-- An assignment that may have been read from a text of some length. -/
structure Assignment.WrittenIn (n : Nat) (a : Assignment) : Prop where
  place : a.place ≤ n
  target : a.target.PlacedIn n
  content : a.content.Written

/-- A declared variable that may have been read from a text of some length. -/
def Declared.WrittenIn (n : Nat) : Declared → Prop
  | plain place _ => place ≤ n
  | assigned a => a.WrittenIn n

mutual

/-- A statement that may have been read from a text of some length: all places lie in the text, and all values
are there. -/
def Statement.WrittenIn (n : Nat) : Statement → Prop
  | .assign a => a.WrittenIn n
  | .declare place _ names => place ≤ n ∧ ∀ d ∈ names, d.WrittenIn n
  | .acquire place => place ≤ n
  | .delay place _ => place ≤ n
  | .pulses trains => ∀ t ∈ trains, t.place ≤ n
  | .loop place _ body => place ≤ n ∧ AllWrittenIn n body

/-- Statements that may all have been read from a text of some length. -/
def AllWrittenIn (n : Nat) : List Statement → Prop
  | [] => True
  | s :: rest => s.WrittenIn n ∧ AllWrittenIn n rest

end

variable {n : Nat} {c : Cursor}

theorem allWrittenIn_iff {ss : List Statement} : AllWrittenIn n ss ↔ ∀ s ∈ ss, s.WrittenIn n := by
  induction ss with
  | nil => simp [AllWrittenIn]
  | cons s rest ih => rw [AllWrittenIn, ih, forall_mem_cons]

/-! ### Assignments and declarations -/

def anyEntries (c : Cursor) : Step (List (String × Value)) :=
  (separated (symbol ',') entry c).orElse fun _ => .ok [] c

def anyContent (c : Cursor) : Step Content :=
  ((dictionary c).map .dictionary).orElse fun _ => (value c).map .value

theorem from_entry (c : Cursor) : (entry c).OnLine c fun e _ => e.2 ≠ .none := by
  refine (from_identifier c).bind fun key d hd _ => ?_
  refine ((from_symbol (by decide) d).after hd).bind fun _ e he _ => ?_
  exact ((from_value e).after he).map fun v _ _ hv => hv

theorem from_dictionary (c : Cursor) : (dictionary c).OnLine c fun entries _ => ∀ e ∈ entries, e.2 ≠ .none := by
  refine (from_symbol (by decide) c).bind fun _ d hd _ => ?_
  have hents : (anyEntries d).OnLine c fun entries _ => ∀ e ∈ entries, e.2 ≠ .none := by
    refine .orElse (.after hd (from_separated (fun e => ?_) fun e _ => from_entry e)) (.ok hd ?_)
    · exact (from_symbol (by decide) e).imp fun _ _ _ _ => trivial
    · exact fun _ he => nomatch he
  refine hents.bind fun entries e he hents => ?_
  exact ((from_symbol (by decide) e).after he).map fun _ _ _ _ => hents

theorem from_variableAssignment (c : Cursor) : (variableAssignment c).OnLine c fun a _ =>
    a.1.PlacedIn c.total ∧ a.2.Written := by
  refine (from_identifier c).bind fun name d hd _ => ?_
  refine ((from_symbol (by decide) d).after hd).bind fun _ e he hbehind => ?_
  have hcont : (anyContent e).OnLine e fun content _ => content.Written :=
    .orElse ((from_dictionary e).map fun entries _ _ h => h) ((from_value e).map fun v _ _ h => h)
  exact (hcont.must (.after hd hbehind) he fun _ h => h).map fun content _ _ h => ⟨trivial, h⟩

theorem from_attributeAssignment (c : Cursor) : (attributeAssignment c).OnLine c fun a _ =>
    a.1.PlacedIn c.total ∧ a.2.Written := by
  have hskip := passes_skip c
  refine ((from_identifier (skip c)).after hskip).bind fun owner d hd _ => ?_
  refine ((from_symbol (by decide) d).after hd).bind fun _ e he hpoint => ?_
  refine ((from_identifier e).must (.after hd hpoint) he fun _ h => h).bind fun name f hf _ => ?_
  refine ((from_symbol (by decide) f).after hf).bind fun _ g hg hequals => ?_
  exact ((from_value g).must (.after hf hequals) hg fun _ h => h).map fun v _ _ hv =>
    ⟨hskip.offset_le, hv⟩

theorem from_assignment (c : Cursor) : (assignment c).OnLine c fun a _ => a.WrittenIn c.total := by
  refine (Step.From.orElse (from_variableAssignment c) (from_attributeAssignment c)).map ?_
  exact fun a _ _ ha => ⟨Nat.le_add_right _ _, ha.1, ha.2⟩

theorem from_declared (c : Cursor) : (declared c).OnLine c fun d _ => d.WrittenIn c.total := by
  refine .orElse ((from_assignment c).map fun a _ _ ha => ha) ?_
  exact (from_identifier c).map fun name _ _ _ => (passes_skip c).offset_le

theorem from_kind (c : Cursor) (kinds : List Kind) : (kind c kinds).OnLine c fun _ _ => True := by
  induction kinds with
  | nil => exact .miss c (.refl c) rfl
  | cons k rest ih =>
    have hword : '\n' ∉ k.name.toList := by cases k <;> decide
    exact .orElse ((from_keyword hword c).map fun _ _ _ _ => trivial) ih

theorem from_declaration (c : Cursor) : (declaration c).OnLine c fun s _ => s.WrittenIn c.total := by
  have hskip := passes_skip c
  refine ((from_kind (skip c) Kind.declarable).after hskip).bind fun k d hd _ => ?_
  have hnames : (separated (symbol ',') declared (skip d)).OnLine (skip d)
      fun names _ => ∀ name ∈ names, name.WrittenIn c.total := by
    refine from_separated (fun e => (from_symbol (by decide) e).imp fun _ _ _ _ => trivial) fun e he => ?_
    rw [← hd.total_eq, ← (passes_skip d).total_eq, ← he.total_eq]
    exact from_declared e
  refine (hnames.after (hd.trans (passes_skip d))).map fun names _ _ hnames => ?_
  rw [WrittenIn]
  exact ⟨hskip.offset_le, hnames⟩

/-! ### Commands -/

theorem from_piece (c : Cursor) : (piece c).OnLine c fun _ _ => True :=
  .orElse ((from_identifier c).map fun _ _ _ _ => trivial) ((from_quantity c).map fun _ _ _ _ => trivial)

theorem from_pieces (c : Cursor) : (pieces c).OnLine c fun _ _ => True := by
  unfold pieces
  refine .orElse ?_ ((from_identifier c).map fun _ _ _ _ => trivial)
  refine (from_symbol (by decide) c).bind fun _ d hd _ => ?_
  refine ((from_piece d).after hd).bind fun first e he _ => ?_
  refine ((from_many fun g _ => from_piece g).after he).bind fun more f hf _ => ?_
  exact ((from_symbol (by decide) f).after hf).map fun _ _ _ _ => trivial

theorem from_train (c : Cursor) : (train c).OnLine c fun t _ => t.place ≤ c.total := by
  have hskip := passes_skip c
  refine ((from_pieces (skip c)).after hskip).bind fun ps d hd _ => ?_
  refine ((from_symbol (by decide) d).after hd).bind fun _ e he _ => ?_
  exact ((from_identifier e).after he).map fun _ _ _ _ => hskip.offset_le

theorem from_pulses (c : Cursor) : (pulses c).OnLine c fun s _ => s.WrittenIn c.total := by
  refine (from_train c).bind fun first d hd hfst => ?_
  have hmore : (many train d).OnLine d fun ts _ => ∀ t ∈ ts, t.place ≤ c.total := by
    refine from_many fun e he => ?_
    rw [← hd.total_eq, ← he.total_eq]
    exact from_train e
  refine (hmore.after hd).map fun more _ _ hmore => ?_
  rw [WrittenIn]
  exact forall_mem_cons.mpr ⟨hfst, hmore⟩

theorem from_delay (c : Cursor) : (delay c).OnLine c fun s _ => s.WrittenIn c.total := by
  refine .map (P := fun _ _ => True) (.orElse ((from_quantity c).map fun _ _ _ _ => trivial)
    ((from_identifier c).map fun _ _ _ _ => trivial)) fun length _ _ _ => ?_
  rw [WrittenIn]
  exact Nat.le_add_right _ _

theorem from_statement (c : Cursor) : (statement c).OnLine c fun s _ => s.WrittenIn c.total := by
  refine .orElse ((from_assignment c).map fun a _ _ ha => by rwa [WrittenIn]) ?_
  refine .orElse (from_declaration c) (.orElse ?_ (.orElse (from_pulses c) (from_delay c)))
  refine (from_keyword (by decide) c).map fun _ _ _ _ => ?_
  rw [WrittenIn]
  exact (passes_skip c).offset_le

/-! ### Blocks -/

theorem from_ending (c : Cursor) : (ending c).From c (fun _ => True) fun e next =>
    e = .separator → next.rest.length < c.rest.length := by
  have hskip : c.Passes (fun _ => True) (skip c) := (passes_skip c).mono fun _ _ => trivial
  unfold ending
  dsimp only
  split
  · exact .ok hskip (by rintro ⟨⟩)
  · rename_i x rest hrest
    split
    · refine .ok (hskip.trans (passes_advance_one (by rw [hrest]; rfl) trivial)) fun _ => ?_
      have hle := hskip.suffix.length_le
      rw [hrest, length_cons] at hle
      rw [advance, hrest]
      exact hle
    · exact .miss _ hskip rfl

def anyCount (c : Cursor) : Step Count :=
  ((identifier c).map .named).orElse fun _ => ((wholeToken (skip c)).bind wholeValue).map .literal

theorem from_loopHead (c : Cursor) : (loopHead c).OnLine c fun _ _ => True := by
  refine (from_keyword (by decide) c).bind fun _ d hd _ => ?_
  have hwhole : ((wholeToken (skip d)).bind wholeValue).OnLine d fun _ _ => True := by
    refine ((from_wholeToken (skip d)).after (passes_skip d)).bind fun token next hnext htok => ?_
    exact (from_wholeValue (htok.mono (passes_skip d).suffix) hnext).imp fun _ _ _ _ => trivial
  have hcnt : (anyCount d).OnLine d fun _ _ => True :=
    .orElse ((from_identifier d).map fun _ _ _ _ => trivial) (hwhole.map fun _ _ _ _ => trivial)
  refine (hcnt.after hd).bind fun n e he _ => ?_
  exact ((from_symbol (by decide) e).after he).map fun _ _ _ _ => trivial

theorem from_optional {s : Step Statement} {allowed : Char → Prop} (h : s.From c allowed fun s _ => s.WrittenIn n) :
    (optional s c).From c allowed fun ss _ => ∀ s ∈ ss, s.WrittenIn n :=
  .orElse (h.map fun _ _ _ hs => forall_mem_singleton.mpr hs) (.ok (.refl c) fun _ h => nomatch h)

theorem optional_ne_miss (s : Step Statement) (c : Cursor) (p : Nat) : optional s c ≠ .miss p := by
  cases s <;> rintro ⟨⟩

def loopBlock (c : Cursor) : Step (Statement × Cursor) :=
  (loopHead c).bind fun n inner =>
    if _h : inner.rest.length < c.rest.length then
      (statements inner).bind fun body d =>
        (symbol '\x7d' d).bind fun _ next => .ok (.loop (skip c).offset n body, next) next
    else .miss c.offset

def ended (c : Cursor) : Step (List Statement × Ending) :=
  (optional (statement (skip c)) (skip c)).bind fun found d =>
    (ending d).map fun e => (found, e)

/-- A loop with its block. It is closed by a brace, so the text has become shorter. -/
theorem from_loopBlock (hc : c.total = n) (hbody : ∀ inner : Cursor, inner.rest.length < c.rest.length →
      inner.total = n → (statements inner).From inner (fun _ => True) fun ss _ => ∀ s ∈ ss, s.WrittenIn n) :
    (loopBlock c).From c (fun _ => True) fun loop next =>
      loop.1.WrittenIn n ∧ loop.2 = next ∧ next.rest.length < c.rest.length := by
  refine ((from_loopHead c).mono fun _ _ => trivial).bind fun count inner hinner _ => ?_
  split
  · rename_i hlt
    refine ((hbody inner hlt (hinner.total_eq.trans hc)).after hinner).bind fun body d hd hbody => ?_
    refine (((from_symbol (by decide) d).mono fun _ _ => trivial).after hd).bind fun _ next hnext hbrace => ?_
    refine .ok hnext ⟨?_, rfl, Nat.lt_of_lt_of_le hbrace.length_lt hd.suffix.length_le⟩
    rw [WrittenIn, allWrittenIn_iff]
    exact ⟨hc ▸ (passes_skip c).offset_le, hbody⟩
  · exact .miss c (.refl c) rfl

theorem from_ended (hc : c.total = n) : (ended c).From c (fun _ => True) fun ended next =>
    (∀ s ∈ ended.1, s.WrittenIn n) ∧ (ended.2 = .separator → next.rest.length < c.rest.length) := by
  have hskip : c.Passes (fun _ => True) (skip c) := (passes_skip c).mono fun _ _ => trivial
  have hstmt : (statement (skip c)).From (skip c) (fun _ => True) _ := (from_statement (skip c)).mono fun _ _ => trivial
  rw [hskip.total_eq, hc] at hstmt
  refine ((from_optional hstmt).after hskip).bind fun found d hd hfound => ?_
  refine ((from_ending d).after hd).map fun e next _ hnext => ⟨hfound, fun he => ?_⟩
  exact Nat.lt_of_lt_of_le (hnext he) hd.suffix.length_le

/-- The statements of a block are read from the text, and there always are some, if only none at all. -/
theorem from_statements (c : Cursor) (hc : c.total = n) :
    ((statements c).From c (fun _ => True) fun ss _ => ∀ s ∈ ss, s.WrittenIn n) ∧ ∀ p, statements c ≠ .miss p := by
  fun_induction statements c with
  | case1 c loopBlock loop next _ hloop hlt ihbody ihnext =>
    obtain ⟨hnext, hwrit, rfl, -⟩ :=
      (from_loopBlock hc fun inner hinner hn => (ihbody inner hinner hn).1).of_ok hloop
    obtain ⟨hrest, hmiss⟩ := ihnext (hnext.total_eq.trans hc)
    refine ⟨(hrest.after hnext).map fun ss _ _ hss => ?_, Step.map_ne_miss hmiss⟩
    exact forall_mem_cons.mpr ⟨hwrit, hss⟩
  | case2 c loopBlock loop next _ hloop hlt ihbody =>
    obtain ⟨-, -, rfl, hshorter⟩ :=
      (from_loopBlock hc fun inner hinner hn => (ihbody inner hinner hn).1).of_ok hloop
    exact absurd hshorter hlt
  | case3 c loopBlock what p hloop ihbody =>
    obtain ⟨d, hd, hp⟩ :=
      (from_loopBlock hc fun inner hinner hn => (ihbody inner hinner hn).1).of_expected hloop
    exact ⟨.expected d hd hp, fun _ => by rintro ⟨⟩⟩
  | case4 c loopBlock f hloop ihbody =>
    have hf := (from_loopBlock hc fun inner hinner hn => (ihbody inner hinner hn).1).of_fault hloop
    exact ⟨.fault hf, fun _ => by rintro ⟨⟩⟩
  | case5 c loopBlock _ hloop ended found next hend ihbody =>
    obtain ⟨hnext, hwrit, -⟩ := (from_ended hc).of_ok hend
    exact ⟨.ok hnext hwrit, fun _ => by rintro ⟨⟩⟩
  | case6 c loopBlock _ hloop ended found next hend hlt ihbody ihnext =>
    obtain ⟨hnext, hwrit, -⟩ := (from_ended hc).of_ok hend
    obtain ⟨hrest, hmiss⟩ := ihnext (hnext.total_eq.trans hc)
    refine ⟨(hrest.after hnext).map fun ss _ _ hss => ?_, Step.map_ne_miss hmiss⟩
    exact forall_mem_append.mpr ⟨hwrit, hss⟩
  | case7 c loopBlock _ hloop ended found next hend hlt ihbody =>
    obtain ⟨-, -, hshorter⟩ := (from_ended hc).of_ok hend
    exact absurd (hshorter rfl) hlt
  | case8 c loopBlock _ hloop ended what p hend ihbody =>
    obtain ⟨d, hd, hp⟩ := (from_ended hc).of_expected hend
    exact ⟨.expected d hd hp, fun _ => by rintro ⟨⟩⟩
  | case9 c loopBlock _ hloop ended f hend ihbody =>
    exact ⟨.fault ((from_ended hc).of_fault hend), fun _ => by rintro ⟨⟩⟩
  | case10 c loopBlock _ hloop ended _ hend ihbody =>
    have hstmt : (statement c).From c (fun _ => True) _ := (from_statement c).mono fun _ _ => trivial
    rw [hc] at hstmt
    exact ⟨from_optional hstmt, optional_ne_miss (statement c) c⟩

/-- A cursor at which something is expected: it does not stand at the start of a line, or there is something
else. -/
def Expecting (c d : Cursor) : Prop :=
  c.Behind d ∨ c.Passes (fun _ => True) d ∧ d.rest ≠ []

/-- The outcome of reading a whole source: its statements, or a cursor at which something else is expected, or
the fault of a token. -/
theorem program_cases (c : Cursor) : (∃ block next, program c = .ok block next ∧ ∀ s ∈ block, s.WrittenIn c.total) ∨
      (∃ what d, program c = .expected what d.offset ∧ Expecting c d) ∨
      ∃ f, program c = .fault f ∧ Unreadable c.rest f := by
  obtain ⟨hstmts, hmiss⟩ := from_statements c rfl
  unfold program
  rcases hrun : statements c with ⟨block, d⟩ | p | ⟨what, p⟩ | f
  · obtain ⟨hd, hblk⟩ := hstmts.of_ok hrun
    dsimp only [Step.bind]
    split
    · exact .inl ⟨block, _, rfl, hblk⟩
    · rename_i hrest
      refine .inr (.inl ⟨_, skip d, rfl, .inr ⟨hd.trans ((passes_skip d).mono fun _ _ => trivial), ?_⟩⟩)
      rw [hrest]
      rintro ⟨⟩
  · exact absurd hrun (hmiss p)
  · obtain ⟨d, hd, rfl⟩ := hstmts.of_expected hrun
    exact .inr (.inl ⟨what, d, rfl, .inl hd⟩)
  · exact .inr (.inr ⟨f, rfl, hstmts.of_fault hrun⟩)

/-- A source is read to its end, or something else is expected in it, or there is a token without a value. -/
theorem read_cases (source : String) : (∃ block, read source = .ok block ∧ ∀ s ∈ block, s.WrittenIn source.length) ∨
      (∃ what d, read source = .error (syntaxFault source what d.offset) ∧ Expecting (.start source) d) ∨
      ∃ f, read source = .error f ∧ Unreadable source.toList f := by
  have htot : (Cursor.start source).total = source.length := by
    rw [Cursor.total, Cursor.start, String.length_toList, Nat.zero_add]
  unfold read
  rcases program_cases (.start source) with ⟨block, next, hrun, hblk⟩ | ⟨what, d, hrun, hd⟩ | ⟨f, hrun, hf⟩
  · rw [hrun]
    exact .inl ⟨block, rfl, htot ▸ hblk⟩
  · rw [hrun]
    exact .inr (.inl ⟨what, d, rfl, hd⟩)
  · rw [hrun]
    exact .inr (.inr ⟨f, rfl, hf⟩)

theorem writtenIn_of_read {source : String} {block : Block} (h : read source = .ok block) :
    ∀ s ∈ block, s.WrittenIn source.length := by
  rcases read_cases source with ⟨block', hread, hblk⟩ | ⟨what, d, hread, -⟩ | ⟨f, hread, -⟩
  · rw [h] at hread
    cases hread
    exact hblk
  · rw [h] at hread
    cases hread
  · rw [h] at hread
    cases hread

end LabBench.Pulse
