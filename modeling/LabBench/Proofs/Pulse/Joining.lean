import LabBench.Proofs.Pulse.Separation
/-!
# Programs one after the other

If several texts are pulse programs, then the text that has them one after the other, with a line feed or a semicolon
between any two of them, is a pulse program as well, and its statements are those of all the programs. What follows a
statement never changes how it is read.
-/

namespace LabBench.Pulse

open Text Cursor Statement List

variable {tail : List Char} {c c' : Cursor} {loop : Statement} {p : Nat} {found : List Statement} {x : Char}
  {rest : List Char} {d : Cursor} {b : Block} {more : List (Char × String)}

/-! ### Blocks -/

theorem statements_of_loop {next next' : Cursor} (h : loopBlock c = .ok (loop, next) next')
    (hlt : next.rest.length < c.rest.length) : statements c = (statements next).map (loop :: ·) := by
  unfold loopBlock at h
  rw [statements]
  dsimp only
  rw [h]
  exact dif_pos hlt

section

variable {next : Cursor} (h : loopBlock c = .miss p)

include h

theorem statements_of_miss : statements c = match ended c with
    | .ok (found, .sourceEnd) next => .ok found next
    | .ok (found, .separator) next =>
      if next.rest.length < c.rest.length then (statements next).map (found ++ ·) else .miss c.offset
    | .expected what p => .expected what p
    | .fault f => .fault f
    | .miss _ => optional (statement c) c := by
  unfold loopBlock at h
  rw [statements]
  dsimp only
  rw [h]
  rfl

theorem statements_of_sourceEnd (hend : ended c = .ok (found, .sourceEnd) next) : statements c = .ok found next := by
  rw [statements_of_miss h, hend]

theorem statements_of_separator (hend : ended c = .ok (found, .separator) next)
    (hlt : next.rest.length < c.rest.length) : statements c = (statements next).map (found ++ ·) := by
  rw [statements_of_miss h, hend]
  exact if_pos hlt

theorem statements_of_last {q : Nat} (hend : ended c = .miss q) : statements c = optional (statement c) c := by
  rw [statements_of_miss h, hend]

end

/-! ### Ends of statements -/

theorem ending_of_nil (h : (skip c).rest = []) : ending c = .ok .sourceEnd (skip c) := by
  rw [ending, h]

theorem ending_of_separator (h : (skip c).rest = x :: rest) (hx : x = '\n' ∨ x = ';') :
    ending c = .ok .separator ((skip c).advance 1) := by
  rw [ending, h]
  exact if_pos (by simpa using hx)

theorem ending_of_other (h : (skip c).rest = x :: rest) (hx : ¬(x = '\n' ∨ x = ';')) :
    ending c = .miss (skip c).offset := by
  rw [ending, h]
  exact if_neg (by simpa using hx)

theorem ending_cases (c : Cursor) : ((skip c).rest = [] ∧ ending c = .ok .sourceEnd (skip c)) ∨
      ∃ x rest, (skip c).rest = x :: rest ∧ ((x = '\n' ∨ x = ';') ∧ ending c = .ok .separator ((skip c).advance 1) ∨
          ¬(x = '\n' ∨ x = ';') ∧ ending c = .miss (skip c).offset) := by
  cases hrest : (skip c).rest with
  | nil => exact .inl ⟨rfl, ending_of_nil hrest⟩
  | cons x rest =>
    refine .inr ⟨x, rest, rfl, ?_⟩
    by_cases hx : x = '\n' ∨ x = ';'
    · exact .inl ⟨hx, ending_of_separator hrest hx⟩
    · exact .inr ⟨hx, ending_of_other hrest hx⟩

theorem follows_optional {s s' : Step Statement} (hs : s.Follows tail (Alike relocate) s') (h : c.Extends tail c') :
    (optional s c).Follows tail (Forall₂ (Alike relocate)) (optional s' c') :=
  .orElse (hs.map fun _ _ ha => .cons ha .nil) (.ok .nil h)

theorem ended_of_ending {next : Cursor} {e : Ending}
    (h : optional (statement (skip c)) (skip c) = .ok found d) (he : ending d = .ok e next) :
    ended c = .ok (found, e) next := by
  rw [ended, h, Step.bind, he]
  rfl

section Ends

variable {found : List Statement} {next : Cursor}

theorem exists_ending_of_ended (h : c.Extends tail c') {e : Ending} (hend : ended c = .ok (found, e) next) :
    ∃ d found' d', ending d = .ok e next ∧ optional (statement (skip c')) (skip c') = .ok found' d' ∧
      Forall₂ (Alike relocate) found found' ∧ d.Extends tail d' := by
  obtain ⟨_, d, hfound, hmap⟩ := Step.bind_eq_ok.mp hend
  obtain ⟨_, hending, heq⟩ := Step.map_eq_ok.mp hmap
  cases heq
  have hoptional := follows_optional (follows_statement (extends_skip h)) (extends_skip h)
  obtain ⟨found', d', hfound', hagree, hd⟩ := hoptional.holds found d hfound
  exact ⟨d, found', d', hending, hfound', hagree, hd⟩

theorem ended_of_separator (h : c.Extends tail c') (hend : ended c = .ok (found, .separator) next) :
    ∃ found' next', Forall₂ (Alike relocate) found found' ∧
      ended c' = .ok (found', .separator) next' ∧ next.Extends tail next' := by
  obtain ⟨d, found', d', hending, hfound', hagree, hd⟩ := exists_ending_of_ended h hend
  have hskip := extends_skip hd
  rcases ending_cases d with ⟨-, hd⟩ | ⟨x, rest, hrest, ⟨hx, hd⟩ | ⟨-, hd⟩⟩ <;> cases hd.symm.trans hending
  refine ⟨found', (skip d').advance 1, hagree, ended_of_ending hfound' ?_, hskip.advance ?_⟩
  · exact ending_of_separator (hskip.rest_cons hrest) hx
  · rw [hrest]
    exact Nat.le_add_left ..

theorem ended_of_sourceEnd (h : c.Extends tail c') (hend : ended c = .ok (found, .sourceEnd) next) :
    (skip next).rest = [] ∧ ∃ found' next', Forall₂ (Alike relocate) found found' ∧
      (tail = [] ∧ ended c' = .ok (found', .sourceEnd) next' ∧ next.Extends tail next' ∨
        ∃ x, tail = x :: next'.rest ∧ ended c' = .ok (found', .separator) next') := by
  obtain ⟨d, found', d', hending, hfound', hagree, hd⟩ := exists_ending_of_ended h hend
  have hskip := extends_skip hd
  rcases ending_cases d with ⟨hrest, hd⟩ | ⟨x, rest, hrest, ⟨hx, hd⟩ | ⟨-, hd⟩⟩ <;> cases hd.symm.trans hending
  have hrest' : (skip d').rest = tail := by
    rw [hskip.rest, hrest, nil_append]
  refine ⟨by rw [skip_skip, hrest], found', ?_⟩
  cases htail : tail with
  | nil =>
    subst htail
    exact ⟨skip d', hagree, .inl ⟨rfl, ended_of_ending hfound' (ending_of_nil hrest'), hskip⟩⟩
  | cons x more =>
    rw [htail] at hrest'
    have hx := h.closing x (by rw [htail]; rfl)
    refine ⟨(skip d').advance 1, hagree, .inr ⟨x, ?_, ended_of_ending hfound' (ending_of_separator hrest' hx)⟩⟩
    rw [advance, hrest']
    rfl

/-- A statement without an end has none in the longer text, and something comes after it. -/
theorem ended_of_miss (h : c.Extends tail c') {p : Nat} (hend : ended c = .miss p) :
    (∃ p', ended c' = .miss p') ∧ ∃ found d, optional (statement (skip c)) (skip c) = .ok found d ∧
      (skip d).rest ≠ [] := by
  have hoptional := follows_optional (follows_statement (extends_skip h)) (extends_skip h)
  rw [ended] at hend
  cases hfound : optional (statement (skip c)) (skip c) with
  | ok found d =>
    obtain ⟨found', d', hfound', -, hd⟩ := hoptional.holds found d hfound
    rw [hfound, Step.bind] at hend
    rcases ending_cases d with ⟨-, hending⟩ | ⟨x, rest, hrest, ⟨-, hending⟩ | ⟨hx, -⟩⟩
    · rw [hending] at hend
      cases hend
    · rw [hending] at hend
      cases hend
    · refine ⟨⟨(skip d').offset, ?_⟩, found, d, rfl, by rw [hrest]; exact cons_ne_nil x rest⟩
      rw [ended, hfound', Step.bind, ending_of_other ((extends_skip hd).rest_cons hrest) hx]
      rfl
  | miss q => exact absurd hfound (optional_ne_miss _ _ q)
  | _ =>
    rw [hfound] at hend
    cases hend

end Ends

/-! ### Whole texts -/

/-- The statements of a text in the longer one: if nothing is left of the text, then those of the tail follow. -/
inductive Resumes (tail : List Char) (d : Cursor) (b : Block) : Step Block → Prop
  | stop {d' : Cursor} (hd : d.Extends tail d') (htail : (skip d).rest = [] → tail = []) : Resumes tail d b (.ok b d')
  | onward {x : Char} {e : Cursor} (hrest : (skip d).rest = []) (htail : tail = x :: e.rest) :
      Resumes tail d b ((statements e).map (b ++ ·))

theorem Resumes.append {s : Step Block} (h : Resumes tail d b s) (before : Block) :
    Resumes tail d (before ++ b) (s.map (before ++ ·)) := by
  cases h with
  | stop hd htail => exact .stop hd htail
  | onward hrest htail =>
    rw [Step.map_map]
    have hassoc : ((before ++ ·) ∘ (b ++ ·) : Block → Block) = (before ++ b ++ ·) := by
      funext rest
      exact (append_assoc before b rest).symm
    rw [hassoc]
    exact .onward hrest htail

def AtEnd (d : Cursor) : Prop :=
  ∀ x, (skip d).rest.head? = some x → x = '\x7d'

/-- Where a block has been read up to its end, the start of a loop that was not closed is no start of a loop. -/
theorem loopHead_of_miss (hloop : loopBlock c = .miss p)
    (hblk : statements c = .ok b d) (hend : AtEnd d) : ∃ q, loopHead c = .miss q := by
  cases hhead : loopHead c with
  | ok n inner =>
    obtain ⟨e, x, hstmt, hx, hstart⟩ := statement_of_loopHead hhead
    obtain ⟨s', hstmt', -⟩ := Step.map_eq_ok.mp ((statement_skip c).trans (Step.map_eq_ok.mpr ⟨_, hstmt, rfl⟩))
    obtain ⟨rest, hrest⟩ := head?_eq_some_iff.mp hx
    have hsep : ¬(x = '\n' ∨ x = ';') := by
      rintro (rfl | rfl) <;> cases hstart
    have hended : ended c = .miss (skip e).offset := by
      rw [ended, hstmt']
      change (ending e).map _ = _
      rw [ending_of_other hrest hsep]
      rfl
    rw [statements_of_last hloop hended, hstmt] at hblk
    cases hblk
    rw [hend x hx] at hstart
    cases hstart
  | miss q => exact ⟨q, rfl⟩
  | _ =>
    rw [loopBlock, hhead] at hloop
    cases hloop

theorem loopBlock_of_miss (h : c.Extends tail c') (hhead : loopHead c = .miss p) : ∃ q, loopBlock c' = .miss q := by
  obtain ⟨q, hhead'⟩ := (follows_loopHead h).miss_of_miss ⟨p, hhead⟩
  exact ⟨q, by rw [loopBlock, hhead']; rfl⟩

theorem alike_loop {place place' : Nat} {count : Count} {body body' : Block} (h : Forall₂ (Alike relocate) body body') :
    Alike relocate (.loop place count body) (.loop place' count body') := by
  rw [Alike, relocate, relocate, relocateAll_eq_map, relocateAll_eq_map, map_eq_of_alike h]

theorem loopBlock_of_ok (h : c.Extends tail c') {next next' : Cursor} (hloop : loopBlock c = .ok (loop, next) next')
    (hbody : ∀ inner inner' : Cursor, inner.rest.length < c.rest.length → inner.Extends tail inner' →
      ∀ body d, statements inner = .ok body d → AtEnd d →
        ∃ body', Forall₂ (Alike relocate) body body' ∧ Resumes tail d body' (statements inner')) :
    ∃ loop' following, loopBlock c' = .ok (loop', following) following ∧ Alike relocate loop loop' ∧
      next.Extends tail following := by
  obtain ⟨n, inner, hhead, hrest⟩ := Step.bind_eq_ok.mp hloop
  obtain ⟨_, inner', hhead', rfl, hinner⟩ := (follows_loopHead h).holds n inner hhead
  split at hrest
  · rename_i hlt
    obtain ⟨body, d, hblk, hclosing⟩ := Step.bind_eq_ok.mp hrest
    obtain ⟨u, next, hbrace, heq⟩ := Step.bind_eq_ok.mp hclosing
    cases heq
    have hx := (symbol_eq_ok_iff.mp hbrace).1
    obtain ⟨body', hagree, hres⟩ := hbody inner inner' hlt hinner body d hblk fun x hx' =>
      Option.some.inj (hx'.symm.trans hx)
    generalize hblk' : statements inner' = s' at hres
    cases hres with
    | @stop d' hd _ =>
      obtain ⟨_, following, hbrace', -, hnext⟩ := (follows_symbol (by decide) hd).holds u _ hbrace
      refine ⟨.loop (skip c').offset n body', following, ?_, alike_loop hagree, hnext⟩
      rw [loopBlock, hhead', Step.bind, dif_pos ((h.length_lt_iff hinner).mpr hlt), hblk', Step.bind, hbrace']
      rfl
    | onward hnil _ =>
      rw [hnil] at hx
      cases hx
  · cases hrest

theorem resumes_statements (h : c.Extends tail c') {b : Block} {d : Cursor} (hblk : statements c = .ok b d)
    (hend : AtEnd d) : ∃ b', Forall₂ (Alike relocate) b b' ∧ Resumes tail d b' (statements c') := by
  fun_induction statements c generalizing c' b d with
  | case1 c _ loop next _ hloop hlt ihbody =>
    rename_i ihnext
    obtain ⟨rest, hrest, rfl⟩ := Step.map_eq_ok.mp hblk
    obtain ⟨loop', following, hloop', hagree, hnext⟩ := loopBlock_of_ok h hloop
      fun inner inner' hinner hext body e hbody hend => ihbody inner hinner hext hbody hend
    obtain ⟨rest', hagrees, hres⟩ := ihnext hnext hrest hend
    refine ⟨loop' :: rest', .cons hagree hagrees, ?_⟩
    rw [statements_of_loop hloop' ((h.length_lt_iff hnext).mpr hlt)]
    exact hres.append [loop']
  | case5 c _ _ hloop _ found next hended =>
    cases hblk
    obtain ⟨q, hhead⟩ := loopHead_of_miss hloop (statements_of_sourceEnd hloop hended) hend
    obtain ⟨q', hloop'⟩ := loopBlock_of_miss h hhead
    obtain ⟨hrest, found', next', hagree, ⟨htail, hended', hnext⟩ | ⟨x, htail, hended'⟩⟩ := ended_of_sourceEnd h hended
    · refine ⟨found', hagree, ?_⟩
      rw [statements_of_sourceEnd hloop' hended']
      exact .stop hnext fun _ => htail
    · refine ⟨found', hagree, ?_⟩
      rw [statements_of_separator hloop' hended' (by rw [h.rest, htail, length_append, length_cons]; omega)]
      exact .onward hrest htail
  | case6 c _ _ hloop _ found next hended hlt =>
    rename_i ihnext
    obtain ⟨q, hhead⟩ := loopHead_of_miss hloop ((statements_of_separator hloop hended hlt).trans hblk) hend
    obtain ⟨q', hloop'⟩ := loopBlock_of_miss h hhead
    obtain ⟨rest, hrest, rfl⟩ := Step.map_eq_ok.mp hblk
    obtain ⟨found', next', hagree, hended', hnext⟩ := ended_of_separator h hended
    obtain ⟨rest', hagrees, hres⟩ := ihnext hnext hrest hend
    refine ⟨found' ++ rest', rel_append hagree hagrees, ?_⟩
    rw [statements_of_separator hloop' hended' ((h.length_lt_iff hnext).mpr hlt)]
    exact hres.append found'
  | case10 c _ _ hloop _ _ hended =>
    obtain ⟨q, hhead⟩ := loopHead_of_miss hloop ((statements_of_last hloop hended).trans hblk) hend
    obtain ⟨q', hloop'⟩ := loopBlock_of_miss h hhead
    obtain ⟨⟨p', hended'⟩, found, e, hfound, hrest⟩ := ended_of_miss h hended
    obtain ⟨b', d', hblk', hagree, hd⟩ := (follows_optional (follows_statement h) h).holds b d hblk
    refine ⟨b', hagree, ?_⟩
    rw [statements_of_last hloop' hended', hblk']
    rw [optional_skip hblk hfound] at hrest
    exact .stop hd fun hnil => absurd hnil hrest
  | _ => cases hblk

/-! ### Joined texts -/

/-- A text whose statements are those of a program, wherever it stands in a source. -/
def Reads (cs : List Char) (b : Block) : Prop :=
  ∀ offset, ∃ (b' : Block) (d : Cursor), statements ⟨offset, cs⟩ = .ok b' d ∧ (skip d).rest = [] ∧ b'.bare = b.bare

theorem read_eq_ok_iff {source : String} :
    read source = .ok b ↔ ∃ d, statements (.start source) = .ok b d ∧ (skip d).rest = [] := by
  rw [read, program]
  cases statements (.start source) with
  | ok block d =>
    simp only [Step.bind]
    cases hrest : (skip d).rest <;> simp [hrest]
  | _ => simp [Step.bind]

theorem atEnd_of_nil (h : (skip d).rest = []) : AtEnd d := by
  intro x hx
  rw [h] at hx
  cases hx

theorem reads_of_read {source : String} (hplain : '#' ∉ source.toList) (h : read source = .ok b) :
    Reads source.toList b := by
  intro offset
  obtain ⟨d, hblk, hrest⟩ := read_eq_ok_iff.mp h
  have hext : (Cursor.start source).Extends [] ⟨offset, source.toList⟩ := ⟨by rintro x ⟨⟩, hplain, (append_nil _).symm⟩
  obtain ⟨b', hagree, hres⟩ := resumes_statements hext hblk (atEnd_of_nil hrest)
  generalize statements ⟨offset, source.toList⟩ = s at hres
  cases hres with
  | stop hd _ =>
    refine ⟨b', _, rfl, ?_, (map_eq_of_alike hagree).symm⟩
    rw [(extends_skip hd).rest, hrest, append_nil]
  | onward _ htail => cases htail

theorem exists_read_of_reads {source : String} (h : Reads source.toList b) :
    ∃ b', read source = .ok b' ∧ b'.bare = b.bare := by
  obtain ⟨b', d, hblk, hrest, hbare⟩ := h 0
  exact ⟨b', read_eq_ok_iff.mpr ⟨d, hblk, hrest⟩, hbare⟩

theorem Reads.append {cs cs' : List Char} {b' : Block} {separator : Char} (h : Reads cs b) (hplain : '#' ∉ cs)
    (hsep : separator = '\n' ∨ separator = ';') (h' : Reads cs' b') : Reads (cs ++ separator :: cs') (b ++ b') := by
  intro offset
  obtain ⟨b₁, d, hblk, hrest, hbare⟩ := h offset
  have hclosing : Closing (separator :: cs') := by
    rintro x ⟨⟩
    exact hsep
  have hext : Cursor.Extends (separator :: cs') ⟨offset, cs⟩ ⟨offset, cs ++ separator :: cs'⟩ := ⟨hclosing, hplain, rfl⟩
  obtain ⟨b₂, hagree, hres⟩ := resumes_statements hext hblk (atEnd_of_nil hrest)
  generalize statements ⟨offset, cs ++ separator :: cs'⟩ = s at hres
  cases hres with
  | stop _ htail => cases htail hrest
  | @onward _ e _ htail =>
    cases htail
    obtain ⟨b₃, d', hblk', hrest', hbare'⟩ := h' e.offset
    refine ⟨b₂ ++ b₃, d', by rw [hblk']; rfl, hrest', ?_⟩
    rw [Block.bare, map_append, ← map_eq_of_alike hagree]
    exact (congrArg₂ _ hbare hbare').trans (map_append ..).symm

/-- Texts one after the other, with separators between them. -/
def joined (text : String) : List (Char × String) → String
  | [] => text
  | (separator, next) :: more => text ++ String.singleton separator ++ joined next more

theorem toList_joined (text : String) (m : Char × String) (more : List (Char × String)) :
    (joined text (m :: more)).toList = text.toList ++ m.1 :: (joined m.2 more).toList := by
  simp [joined]

theorem reads_joined {text : String} {blocks : List Block}
    (hseps : ∀ m ∈ more, m.1 = '\n' ∨ m.1 = ';') (hplain : ∀ s ∈ text :: more.map (·.2), '#' ∉ s.toList)
    (hreads : Forall₂ (fun s b => Reads s.toList b) (text :: more.map (·.2)) blocks) :
    Reads (joined text more).toList blocks.flatten := by
  induction more generalizing text blocks with
  | nil =>
    obtain ⟨b, _, hread, hnil, rfl⟩ := forall₂_cons_left_iff.mp hreads
    cases hnil
    rw [flatten_singleton]
    exact hread
  | cons m more ih =>
    obtain ⟨b, blocks, hread, hrest, rfl⟩ := forall₂_cons_left_iff.mp hreads
    rw [forall_mem_cons] at hseps hplain
    rw [toList_joined, flatten_cons]
    exact hread.append hplain.1 hseps.1 (ih hseps.2 hplain.2 hrest)

theorem expandTabs_of_not_mem {s : String} (h : '\t' ∉ s.toList) : expandTabs s = s := by
  have hfrom (column : Nat) (cs : List Char) (hcs : '\t' ∉ cs) : expandTabsFrom column cs = cs := by
    fun_induction expandTabsFrom column cs with
    | case1 => rfl
    | case2 column c rest hc => exact absurd (eq_of_beq hc ▸ mem_cons_self) hcs
    | case3 column c rest _ _ ih | case4 column c rest _ _ ih => rw [ih (mt (mem_cons_of_mem c) hcs)]
  rw [expandTabs, hfrom 0 _ h, String.ofList_toList]

theorem not_mem_joined {text : String}
    (hseps : ∀ m ∈ more, m.1 ≠ x) (htexts : ∀ s ∈ text :: more.map (·.2), x ∉ s.toList) :
    x ∉ (joined text more).toList := by
  induction more generalizing text with
  | nil => exact htexts text mem_cons_self
  | cons m more ih =>
    rw [forall_mem_cons] at hseps htexts
    rw [toList_joined, mem_append, mem_cons]
    rintro (hx | rfl | hx)
    · exact htexts.1 hx
    · exact hseps.1 rfl
    · exact ih hseps.2 htexts.2 hx

/-- Programs that are joined by line feeds and semicolons are a program, with the statements of all of them. -/
theorem read_joined (text : String) (more : List (Char × String)) (blocks : List Block)
    (hseparators : ∀ m ∈ more, m.1 = '\n' ∨ m.1 = ';')
    (hplain : ∀ s ∈ text :: more.map (·.2), '\t' ∉ s.toList ∧ '#' ∉ s.toList)
    (hread : Forall₂ (fun s b => read (expandTabs s) = .ok b) (text :: more.map (·.2)) blocks) :
    ∃ b, read (expandTabs (joined text more)) = .ok b ∧ b.bare = Block.bare blocks.flatten := by
  have htabs : '\t' ∉ (joined text more).toList := by
    refine not_mem_joined (fun m hm => ?_) fun s hs => (hplain s hs).1
    rcases hseparators m hm with h | h <;> rw [h] <;> decide
  have hreads : Forall₂ (fun s b => Reads s.toList b) (text :: more.map (·.2)) blocks := by
    refine (forall₂_iff_zip.mp hread).elim fun hlength hall => forall₂_iff_zip.mpr ⟨hlength, fun hmem => ?_⟩
    obtain ⟨htab, hhash⟩ := hplain _ (of_mem_zip hmem).1
    have hsource := hall hmem
    rw [expandTabs_of_not_mem htab] at hsource
    exact reads_of_read hhash hsource
  rw [expandTabs_of_not_mem htabs]
  exact exists_read_of_reads (reads_joined hseparators (fun s hs => (hplain s hs).2) hreads)

/-- A delay, a loop and pulses, which are programs of their own. -/
theorem read_joined_loop : ∃ b₁ b₂ b₃ b : Block, read (expandTabs "delay d = 3 s; d") = .ok b₁ ∧
    read (expandTabs "times 2 \x7b (p):o \x7d") = .ok b₂ ∧ read (expandTabs " p:o q:r") = .ok b₃ ∧
    read (expandTabs "delay d = 3 s; d\ntimes 2 \x7b (p):o \x7d; p:o q:r") = .ok b ∧
    b.bare = Block.bare [b₁, b₂, b₃].flatten := by
  obtain ⟨b₁, h₁⟩ := Outcome.exists_of_isOk (show (read (expandTabs "delay d = 3 s; d")).isOk = true by decide +kernel)
  obtain ⟨b₂, h₂⟩ := Outcome.exists_of_isOk
    (show (read (expandTabs "times 2 \x7b (p):o \x7d")).isOk = true by decide +kernel)
  obtain ⟨b₃, h₃⟩ := Outcome.exists_of_isOk (show (read (expandTabs " p:o q:r")).isOk = true by decide +kernel)
  obtain ⟨b, hb, hbare⟩ := read_joined "delay d = 3 s; d" [('\n', "times 2 \x7b (p):o \x7d"), (';', " p:o q:r")]
    [b₁, b₂, b₃] (by decide) (by decide +kernel) (.cons h₁ (.cons h₂ (.cons h₃ .nil)))
  exact ⟨b₁, b₂, b₃, b, h₁, h₂, h₃, hb, hbare⟩

end LabBench.Pulse
