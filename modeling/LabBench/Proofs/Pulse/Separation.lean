import LabBench.Proofs.Pulse.Contents
import LabBench.Proofs.Pulse.Extension
import LabBench.Proofs.Pulse.Reading
/-!
# Statements in a longer text

A statement is read in the same way, whatever follows it after a line feed or a semicolon: the alternatives that did not
match do not match in the longer text either. The blanks in front of it only change its place.

The word that starts a loop is not reserved. If the loop is not closed, then it is the name of a delay; but no statement
ends there.
-/

namespace LabBench.Pulse

open Text Cursor Step Statement List

variable {tail : List Char} {c c' : Cursor} {x : Char} {d : Cursor}

/-! ### Steps -/

section Steps

variable {α β γ : Type} {s : Step α} {t : Unit → Step α} {d : Cursor} {x : Char}

theorem Step.bind_eq_ok {f : α → Cursor → Step β} {b : β} {e : Cursor} :
    s.bind f = .ok b e ↔ ∃ a d, s = .ok a d ∧ f a d = .ok b e := by
  cases s <;> simp [Step.bind]

theorem Step.orElse_eq_ok {a : α} : s.orElse t = .ok a d ↔ s = .ok a d ∨ (∃ p, s = .miss p) ∧ t () = .ok a d := by
  cases s with
  | miss p =>
    rw [Step.orElse]
    cases t () <;> simp
  | _ => simp [Step.orElse]

theorem Step.map_map (f : α → β) (g : β → γ) : (s.map f).map g = s.map (g ∘ f) := by
  cases s <;> rfl

theorem Step.map_orElse (f : α → β) : (s.orElse t).map f = (s.map f).orElse fun _ => (t ()).map f := by
  cases s with
  | miss p =>
    change ((miss p).orElse t).map f = (miss p).orElse fun _ => (t ()).map f
    rw [Step.orElse, Step.orElse]
    cases t () <;> rfl
  | _ => rfl

theorem symbol_of_head?_ne (h : (skip c).rest.head? ≠ some x) : symbol x c = .miss (skip c).offset := by
  unfold symbol
  exact if_neg (mt beq_iff_eq.mp h)

theorem symbol_eq_ok_iff {u : Unit} : symbol x c = .ok u d ↔ (skip c).rest.head? = some x ∧ d = (skip c).advance 1 := by
  by_cases h : (skip c).rest.head? = some x
  · unfold symbol
    dsimp only
    rw [if_pos (beq_iff_eq.mpr h), ok.injEq]
    simp [h, eq_comm]
  · rw [symbol_of_head?_ne h]
    simp [h]

theorem headed_of_head? {p : Char → Bool} {more : List Char → List Char} (h : c.rest.head? = some x)
    (hx : p x = false) : headed p more c = .miss c.offset := by
  obtain ⟨rest, hrest⟩ := head?_eq_some_iff.mp h
  unfold headed
  rw [hrest]
  simp [hx]

end Steps

/-! ### Blanks in front of a statement -/

theorem rest_span (p : Char → Bool) (c : Cursor) : (c.span p).2.rest = c.rest.dropWhile p :=
  calc c.rest.drop (c.rest.takeWhile p).length
      = (c.rest.takeWhile p ++ c.rest.dropWhile p).drop (c.rest.takeWhile p).length := by
        rw [takeWhile_append_dropWhile]
    _ = c.rest.dropWhile p := drop_left

theorem head?_skip (h : (skip c).rest.head? = some x) : isGap x = false ∧ x ≠ '#' := by
  have hhead (p : Char → Bool) {cs : List Char} (hx : (cs.dropWhile p).head? = some x) : p x = false := by
    have := head?_dropWhile_not p cs
    rw [hx] at this
    simpa using this
  unfold skip at h
  dsimp only at h
  split at h
  · rw [rest_span] at h
    have hx : x = '\n' := by simpa using hhead _ h
    rw [hx]
    exact ⟨rfl, by decide⟩
  · rename_i hcomment
    rw [rest_span] at h
    refine ⟨hhead _ h, ?_⟩
    rintro rfl
    obtain ⟨rest, hrest⟩ := head?_eq_some_iff.mp h
    exact hcomment rest (by rw [rest_span, hrest])

@[simp] theorem skip_skip (c : Cursor) : skip (skip c) = skip c := by
  have hspan : ((skip c).span isGap).2 = skip c := by
    have htok : (skip c).rest.takeWhile isGap = [] := by
      cases hrest : (skip c).rest with
      | nil => rfl
      | cons x rest => exact takeWhile_cons_of_neg (by rw [(head?_skip (by rw [hrest]; rfl)).1]; decide)
    rw [Cursor.span, htok]
    rfl
  rw [skip_of_head?_ne, hspan]
  rw [hspan]
  exact fun hhash => (head?_skip hhash).2 rfl

theorem symbol_skip (x : Char) (c : Cursor) : symbol x (skip c) = symbol x c := by
  rw [symbol, symbol, skip_skip]

theorem identifier_skip (c : Cursor) : identifier (skip c) = identifier c := by
  rw [identifier_eq, identifier_eq, skip_skip]

theorem keyword_skip (word : String) (c : Cursor) : keyword word (skip c) = keyword word c := by
  unfold keyword
  rw [skip_skip]

theorem number_skip (c : Cursor) : number (skip c) = number c := by
  unfold number
  rw [skip_skip]

theorem quantity_skip (c : Cursor) : quantity (skip c) = quantity c := by
  unfold quantity
  rw [skip_skip]

/-! ### Assignments and declarations -/

def Alike {α : Type} (relocate : (Nat → Nat) → α → α) (a a' : α) : Prop :=
  relocate (fun _ => 0) a = relocate (fun _ => 0) a'

theorem map_eq_of_alike {α : Type} {relocate : (Nat → Nat) → α → α} {as as' : List α}
    (h : Forall₂ (Alike relocate) as as') : as.map (relocate fun _ => 0) = as'.map (relocate fun _ => 0) := by
  induction h with
  | nil => rfl
  | cons ha _ ih => rw [map_cons, map_cons, ih, ha]

theorem identifier_of_head? (h : (skip c).rest.head? = some x) (hx : isNameStart x = false) :
    identifier c = .miss (skip c).offset := by
  rw [identifier_eq, headed_of_head? h hx]
  rfl

theorem holds_entry (h : c.Extends tail c') : (entry c).Holds tail Eq (entry c') := by
  refine (follows_identifier h).holds.bind ?_
  rintro key _ rfl d d' hd
  refine (follows_symbol (by decide) hd).holds.bind fun _ _ _ e e' he => ?_
  exact (holds_value he).map fun _ _ hv => by rw [hv]

theorem holds_entries (h : c.Extends tail c') {entries : List (String × Value)}
    (hents : anyEntries c = .ok entries d) (hbrace : (skip d).rest.head? = some '\x7d') :
    ∃ d', anyEntries c' = .ok entries d' ∧ d.Extends tail d' := by
  have hhead {e e' : Cursor} (he : e.Extends tail e') (hbrace : (skip e).rest.head? = some '\x7d') :
      (skip e').rest.head? = some '\x7d' :=
    ((extends_skip he).head?_eq_some_iff (by decide)).mpr hbrace
  rcases orElse_eq_ok.mp hents with hsome | ⟨-, hnone⟩
  · obtain ⟨first, e, hfst, hrest⟩ := Step.bind_eq_ok.mp hsome
    obtain ⟨more, hmore, rfl⟩ := map_eq_ok.mp hrest
    obtain ⟨_, e', hfst', rfl, he⟩ := holds_entry h first e hfst
    obtain ⟨more', d', hmore', hagree, hd⟩ := holds_many
      (fun f f' hf => (follows_symbol (by decide) hf).holds.bind fun _ _ _ g g' hg => holds_entry hg) he hmore
      fun d' hd _ => ⟨(skip d').offset, by rw [symbol_of_head?_ne (by rw [hhead hd hbrace]; decide)]; rfl⟩
    rw [forall₂_eq_eq_eq] at hagree
    refine ⟨d', orElse_eq_ok.mpr (.inl ?_), hd⟩
    rw [separated, hfst', Step.bind, hmore', hagree]
    rfl
  · cases hnone
    refine ⟨c', orElse_eq_ok.mpr (.inr ⟨⟨(skip c').offset, ?_⟩, rfl⟩), h⟩
    rw [separated, entry, identifier_of_head? (hhead h hbrace) (by decide)]
    rfl

theorem holds_dictionary (h : c.Extends tail c') : (dictionary c).Holds tail Eq (dictionary c') := by
  refine (follows_symbol (by decide) h).holds.bind fun _ _ _ d d' hd => ?_
  intro entries f hdictionary
  obtain ⟨_, e, hents, hend⟩ := Step.bind_eq_ok.mp hdictionary
  obtain ⟨u, hclosing, rfl⟩ := map_eq_ok.mp hend
  obtain ⟨e', hents', he⟩ := holds_entries hd hents (symbol_eq_ok_iff.mp hclosing).1
  obtain ⟨_, f', hclosing', -, hf⟩ := (follows_symbol (by decide) he).holds u f hclosing
  exact ⟨_, f', Step.bind_eq_ok.mpr ⟨_, e', hents', map_eq_ok.mpr ⟨_, hclosing', rfl⟩⟩, rfl, hf⟩

theorem value_of_brace (h : (skip c).rest.head? = some '\x7b') (v : Value) (d : Cursor) : value c ≠ .ok v d := by
  have hnum {e : Cursor} (he : skip e = skip c) : number e = .miss (skip c).offset := by
    rw [number, wholeToken_eq, he, headed_of_head? h (by decide)]
    rfl
  have hqty : quantity c = .miss (skip c).offset := by
    rw [quantity, hnum (skip_skip c)]
    rfl
  rw [value, hqty, hnum rfl, quotedText_of_head?_ne (by rw [h]; decide), quotedText_of_head?_ne (by rw [h]; decide)]
  rintro ⟨⟩

section

variable (h : c.Extends tail c')

include h

theorem holds_content : (anyContent c).Holds tail Eq (anyContent c') := by
  refine ((holds_dictionary h).map fun _ _ => congrArg _).orElse ((holds_value h).map fun _ _ => congrArg _) ?_
  by_cases hbrace : (skip c).rest.head? = some '\x7b'
  · refine .inr fun content d hcont => ?_
    obtain ⟨v, hv, -⟩ := map_eq_ok.mp hcont
    exact value_of_brace hbrace v d hv
  · have hbrace' := mt ((extends_skip h).head?_eq_some_iff (by decide)).mp hbrace
    rw [dictionary, dictionary, symbol_of_head?_ne hbrace, symbol_of_head?_ne hbrace']
    exact .inl .miss

theorem follows_variableAssignment : (variableAssignment c).Follows tail Eq (variableAssignment c') := by
  refine (follows_identifier h).bind ?_
  rintro name _ rfl d d' hd
  refine (follows_symbol (by decide) hd).bind fun _ _ _ e e' he => ?_
  exact ((holds_content he).must "value").map fun _ _ hv => by rw [hv]

theorem follows_attributeAssignment : (attributeAssignment c).Follows tail
      (fun a a' => Alike Target.relocate a.1 a'.1 ∧ a.2 = a'.2) (attributeAssignment c') := by
  refine (follows_identifier (extends_skip h)).bind ?_
  rintro owner _ rfl d d' hd
  refine (follows_symbol (by decide) hd).bind fun _ _ _ e e' he => ?_
  refine ((follows_identifier he).holds.must "identifier").bind ?_
  rintro name _ rfl f f' hf
  refine (follows_symbol (by decide) hf).bind fun _ _ _ g g' hg => ?_
  exact ((holds_value hg).must "value").map fun _ _ hv => ⟨rfl, by rw [hv]⟩

theorem follows_assignment : (assignment c).Follows tail (Alike Assignment.relocate) (assignment c') := by
  have hvar : (variableAssignment c).Follows tail (fun a a' => Alike Target.relocate a.1 a'.1 ∧ a.2 = a'.2)
      (variableAssignment c') := (follows_variableAssignment h).imp fun a a' ha => by rw [ha]; exact ⟨rfl, rfl⟩
  refine (hvar.orElse (follows_attributeAssignment h)).map fun a a' ha => ?_
  change Assignment.mk 0 (a.1.relocate _) a.2 = Assignment.mk 0 (a'.1.relocate _) a'.2
  rw [ha.1, ha.2]

theorem follows_declared : (declared c).Follows tail (Alike Declared.relocate) (declared c') := by
  refine .orElse ((follows_assignment h).map fun a a' ha => ?_) ((follows_identifier h).map fun name name' hname => ?_)
  · exact congrArg Declared.assigned ha
  · exact congrArg (Declared.plain 0) hname

theorem follows_kind {kinds : List Kind} (hkinds : ∀ k ∈ kinds, '\n' ∉ k.name.toList ∧ ';' ∉ k.name.toList) :
    (kind c kinds).Follows tail Eq (kind c' kinds) := by
  induction kinds with
  | nil => exact .miss
  | cons k rest ih =>
    rw [forall_mem_cons] at hkinds
    exact .orElse ((follows_keyword hkinds.1 h).map fun _ _ _ => rfl) (ih hkinds.2)

theorem follows_declaration : (declaration c).Follows tail (Alike relocate) (declaration c') := by
  refine (follows_kind (extends_skip h) (by decide)).bind ?_
  rintro k _ rfl d d' hd
  refine (follows_separated (fun e e' => follows_symbol (by decide)) (fun e e' => follows_declared)
    (extends_skip hd)).map fun names names' hnames => ?_
  exact congrArg (Statement.declare 0 k) (map_eq_of_alike hnames)

/-! ### Commands -/

theorem follows_piece : (piece c).Follows tail Eq (piece c') :=
  .orElse ((follows_identifier h).map fun _ _ => congrArg _) ((follows_quantity h).map fun _ _ => congrArg _)

theorem follows_pieces : (pieces c).Follows tail Eq (pieces c') := by
  unfold pieces
  refine Step.Follows.orElse (Step.Follows.bind (follows_symbol (by decide) h) fun _ _ _ d d' hd => ?_)
    ((follows_identifier h).map fun _ _ hname => by rw [hname])
  refine (follows_piece hd).bind ?_
  rintro first _ rfl e e' he
  refine (follows_many (fun f f' => follows_piece) he).bind fun more more' hmore f f' hf => ?_
  rw [forall₂_eq_eq_eq] at hmore
  exact (follows_symbol (by decide) hf).map fun _ _ _ => by rw [hmore]

theorem follows_train : (train c).Follows tail (Alike Train.relocate) (train c') := by
  refine (follows_pieces (extends_skip h)).bind ?_
  rintro ps _ rfl d d' hd
  refine (follows_symbol (by decide) hd).bind fun _ _ _ e e' he => ?_
  exact (follows_identifier he).map fun output output' => congrArg (Train.mk 0 ps)

theorem follows_pulses : (pulses c).Follows tail (Alike relocate) (pulses c') := by
  refine (follows_train h).bind fun first first' hfst d d' hd => ?_
  refine (follows_many (fun e e' => follows_train) hd).map fun more more' hmore => ?_
  exact congrArg Statement.pulses (map_eq_of_alike (.cons hfst hmore))

theorem follows_delay : (delay c).Follows tail (Alike relocate) (delay c') := by
  have hlen : (((quantity c).map Length.literal).orElse fun _ => (identifier c).map Length.named).Follows tail Eq
      (((quantity c').map Length.literal).orElse fun _ => (identifier c').map Length.named) :=
    .orElse ((follows_quantity h).map fun _ _ => congrArg _) ((follows_identifier h).map fun _ _ => congrArg _)
  exact hlen.map fun _ _ => congrArg (Statement.delay 0)

/-- A statement is read as in the text alone, whatever follows it after its end. -/
theorem follows_statement : (statement c).Follows tail (Alike relocate) (statement c') := by
  refine .orElse ((follows_assignment h).map fun a a' => congrArg Statement.assign) ?_
  refine .orElse (follows_declaration h) ?_
  refine .orElse ((follows_keyword (by decide) h).map fun _ _ _ => rfl) ?_
  exact .orElse (follows_pulses h) (follows_delay h)

end

/-- Blanks in front of a statement do not matter, apart from its place. -/
theorem statement_skip (c : Cursor) :
    (statement (skip c)).map (relocate fun _ => 0) = (statement c).map (relocate fun _ => 0) := by
  have hvar : variableAssignment (skip c) = variableAssignment c := by
    rw [variableAssignment, variableAssignment, identifier_skip]
  have hattr : attributeAssignment (skip c) = attributeAssignment c := by
    rw [attributeAssignment, attributeAssignment, skip_skip]
  have hdecl : declaration (skip c) = declaration c := by
    rw [declaration, declaration, skip_skip]
  have hpulses : pulses (skip c) = pulses c := by
    rw [pulses, pulses, train, train, skip_skip]
  simp only [statement, assignment, delay, map_orElse, Step.map_map, hvar, hattr, hdecl, hpulses,
    keyword_skip, identifier_skip, quantity_skip, skip_skip]
  rfl

theorem optional_skip {found found' : List Statement} {d' : Cursor}
    (h : optional (statement c) c = .ok found d) (h' : optional (statement (skip c)) (skip c) = .ok found' d') :
    skip d' = skip d := by
  have hskip := statement_skip c
  rcases orElse_eq_ok.mp h with hsome | ⟨⟨p, hnone⟩, hc⟩
  · obtain ⟨s, hs, -⟩ := map_eq_ok.mp hsome
    obtain ⟨s', hs', -⟩ := map_eq_ok.mp (hskip.trans (map_eq_ok.mpr ⟨s, hs, rfl⟩))
    rw [hs'] at h'
    cases h'
    rfl
  · cases hc
    cases hs : statement c with
    | miss q =>
      cases hs' : statement (skip c) with
      | miss q' =>
        rw [hs'] at h'
        cases h'
        exact skip_skip c
      | _ =>
        rw [hs, hs'] at hskip
        cases hskip
    | _ =>
      rw [hs] at hnone
      cases hnone

/-! ### The start of a loop -/

theorem follows_loopHead (h : c.Extends tail c') : (loopHead c).Follows tail Eq (loopHead c') := by
  unfold loopHead
  refine Step.Follows.bind (follows_keyword (by decide) h) fun _ _ _ d d' hd => ?_
  have hcnt : (anyCount d).Follows tail Eq (anyCount d') :=
    .orElse ((follows_identifier hd).map fun _ _ => congrArg _)
      ((follows_whole (extends_skip hd)).map fun _ _ => congrArg _)
  refine hcnt.bind ?_
  rintro n _ rfl e e' he
  exact (follows_symbol (by decide) he).map fun _ _ _ => rfl

theorem keyword_eq_ok {word : String} {u : Unit} (h : keyword word c = .ok u d) :
    (skip c).rest = word.toList ++ d.rest ∧ d = (skip c).advance word.length ∧
      ∀ x, d.rest.head? = some x → isNameChar x = false := by
  unfold keyword at h
  dsimp only at h
  split at h
  · rename_i hpre
    obtain ⟨rest, hrest⟩ := isPrefixOf_iff_prefix.mp hpre
    have hafter : ((skip c).advance word.length).rest = rest := by
      rw [advance, ← hrest, ← String.length_toList, drop_left]
    rw [hafter] at h
    cases rest with
    | nil =>
      cases h
      exact ⟨by rw [hafter, hrest], rfl, by rw [hafter]; rintro x ⟨⟩⟩
    | cons x rest =>
      dsimp only at h
      split at h
      · cases h
      · rename_i hx
        cases h
        refine ⟨by rw [hafter, hrest], rfl, ?_⟩
        rw [hafter]
        rintro y ⟨⟩
        simp only [Bool.or_eq_true, not_or, Bool.not_eq_true] at hx
        exact hx.1
  · cases h

theorem keyword_of_head? {word : String} {y : Char} (h : (skip c).rest.head? = some x)
    (hword : word.toList.head? = some y) (hne : y ≠ x) : keyword word c = .miss (skip c).offset := by
  obtain ⟨rest, hrest⟩ := head?_eq_some_iff.mp h
  obtain ⟨more, hmore⟩ := head?_eq_some_iff.mp hword
  unfold keyword
  dsimp only
  rw [if_neg]
  rw [hrest, hmore]
  simp [isPrefixOf, hne]

theorem headed_eq_ok {p : Char → Bool} {more : List Char → List Char} {token : List Char}
    (h : headed p more c = .ok token d) : ∃ x, c.rest.head? = some x ∧ p x = true := by
  cases hc : c.rest with
  | nil =>
    rw [headed, hc] at h
    cases h
  | cons x rest =>
    refine ⟨x, rfl, ?_⟩
    by_contra hx
    rw [headed_of_head? (by rw [hc]; rfl) (by simpa using hx)] at h
    cases h

theorem identifier_of_keyword {word : String} {u : Unit} {more : List Char}
    (h : keyword word c = .ok u d) (hword : word.toList = x :: more) (hx : isNameStart x = true)
    (hmore : ∀ y ∈ more, isNameChar y = true) : identifier c = .ok word d := by
  obtain ⟨hc, hd, hafter⟩ := keyword_eq_ok h
  have hnone : d.rest.takeWhile isNameChar = [] := by
    cases hrest : d.rest with
    | nil => rfl
    | cons y rest => exact takeWhile_cons_of_neg (by rw [hafter y (by rw [hrest]; rfl)]; decide)
  rw [identifier_eq, headed, hc, hword, cons_append]
  dsimp only
  rw [if_pos hx, takeWhile_append_of_pos hmore, hnone, append_nil, ← hword, String.length_toList, ← hd]
  exact congrArg (ok · d) (String.ofList_toList)

/-- What may follow the word that starts a loop: a name, or a number. -/
def isCountStart (x : Char) : Bool :=
  isNameStart x || (x == '+' || x == '-' || x.isDigit)

theorem exists_countStart {e : Cursor} {n : Count} (h : anyCount d = .ok n e) :
    ∃ x, (skip d).rest.head? = some x ∧ isCountStart x = true := by
  rcases orElse_eq_ok.mp h with hnamed | ⟨-, hliteral⟩
  · obtain ⟨name, hname, -⟩ := map_eq_ok.mp hnamed
    rw [identifier_eq] at hname
    obtain ⟨token, htok, -⟩ := map_eq_ok.mp hname
    obtain ⟨x, hx, hstart⟩ := headed_eq_ok htok
    exact ⟨x, hx, by rw [isCountStart, hstart]; rfl⟩
  · obtain ⟨m, hm, -⟩ := map_eq_ok.mp hliteral
    obtain ⟨token, _, htok, -⟩ := Step.bind_eq_ok.mp hm
    rw [wholeToken_eq] at htok
    obtain ⟨x, hx, hstart⟩ := headed_eq_ok htok
    exact ⟨x, hx, by rw [isCountStart, hstart, Bool.or_true]⟩

/-- A name that starts like no keyword of a statement, and after which there is nothing of an assignment or a pulse, is
a delay. -/
theorem statement_of_name {name : String} (hname : identifier c = .ok name d)
    (hhead : (skip c).rest.head? = some 't') (hnext : ∀ x ∈ ['=', '.', ':'], (skip d).rest.head? ≠ some x) :
    statement c = .ok (.delay c.offset (.named name)) d := by
  have hsym {x : Char} (hx : x ∈ ['=', '.', ':']) : symbol x d = .miss (skip d).offset :=
    symbol_of_head?_ne (hnext x hx)
  have hkw {word : String} {y : Char} (hword : word.toList.head? = some y) (hne : y ≠ 't') :
      keyword word c = .miss (skip c).offset := keyword_of_head? hhead hword hne
  have hasg : ∃ p, assignment c = .miss p := by
    rw [assignment, variableAssignment, attributeAssignment, identifier_skip, hname, Step.bind, Step.bind,
      hsym (by decide), hsym (by decide)]
    exact ⟨_, rfl⟩
  have hdecl : ∃ p, declaration c = .miss p := by
    simp only [declaration, Kind.declarable, kind, Kind.name, keyword_skip,
      hkw (show "delay".toList.head? = some 'd' by decide) (by decide),
      hkw (show "int".toList.head? = some 'i' by decide) (by decide),
      hkw (show "output".toList.head? = some 'o' by decide) (by decide),
      hkw (show "pulse".toList.head? = some 'p' by decide) (by decide)]
    exact ⟨_, rfl⟩
  have hpulses : ∃ p, pulses c = .miss p := by
    rw [pulses, train, pieces, symbol_skip, identifier_skip, hname, symbol_of_head?_ne (by rw [hhead]; decide)]
    simp only [Step.bind, Step.orElse, Step.map, hsym (show ':' ∈ ['=', '.', ':'] by decide)]
    exact ⟨_, rfl⟩
  have hqty : quantity c = .miss (skip c).offset := by
    rw [quantity, number_skip, number, wholeToken_eq, headed_of_head? hhead (by decide)]
    rfl
  obtain ⟨p, hasg⟩ := hasg
  obtain ⟨q, hdecl⟩ := hdecl
  obtain ⟨r, hpulses⟩ := hpulses
  rw [statement, hasg, hdecl, hkw (show "acquire".toList.head? = some 'a' by decide) (by decide),
    hpulses, delay, hqty, hname]
  rfl

theorem statement_of_loopHead {n : Count} {inner : Cursor} (h : loopHead c = .ok n inner) :
    ∃ d x, statement c = .ok (.delay c.offset (.named "times")) d ∧ (skip d).rest.head? = some x ∧
      isCountStart x = true := by
  obtain ⟨_, d, hword, hrest⟩ := Step.bind_eq_ok.mp h
  obtain ⟨count, e, hcnt, -⟩ := Step.bind_eq_ok.mp hrest
  obtain ⟨x, hx, hstart⟩ := exists_countStart hcnt
  have hname : identifier c = .ok "times" d := identifier_of_keyword hword rfl (by decide) (all_eq_true.mp (by decide))
  refine ⟨d, x, statement_of_name hname ?_ fun y hy heq => ?_, hx, hstart⟩
  · rw [(keyword_eq_ok hword).1]
    rfl
  · have hnone : ['=', '.', ':'].all (!isCountStart ·) = true := by decide
    have hoth := all_eq_true.mp hnone y hy
    rw [← Option.some.inj (hx.symm.trans heq), hstart] at hoth
    cases hoth

end LabBench.Pulse
