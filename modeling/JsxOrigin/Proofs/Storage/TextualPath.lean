import JsxOrigin.Proofs.Storage.Path
import JsxOrigin.Storage.TextualPath

/-!
# Laws of paths as plain texts

Joining, taking the directory and normalising work on texts, and a file system works on names. For
the text of a file, which is its names with slashes between them, the two agree.

**The law** (`Text.normalPath_beside`): the text that a relative source leads to from a file is that
of a relative path, whose names are those of the directory of the file and those of the source with
two dots folded. As long as this does not lead above the start, the dots are folded like a file
system follows them (`Path.foldl_foldStep_eq`).
-/

namespace JsxOrigin

namespace Text

/-! ## Cutting at slashes -/

theorem splitOn_ne_nil (sep : CodePoint) (t : Text) : splitOn sep t ≠ [] := by
  cases t with
  | nil => exact List.cons_ne_nil _ _
  | cons c rest =>
    rw [splitOn]
    split
    · exact List.cons_ne_nil _ _
    · split <;> exact List.cons_ne_nil _ _

/-- A text is cut at one separator by cutting what is on both sides of it. -/
theorem splitOn_append_sep (sep : CodePoint) (t u : Text) :
    splitOn sep (t ++ sep :: u) = splitOn sep t ++ splitOn sep u := by
  induction t with
  | nil => simp [splitOn]
  | cons c rest ih =>
    rw [List.cons_append, splitOn, splitOn, ih]
    split
    · rfl
    · cases isSplit : splitOn sep rest with
      | nil => exact absurd isSplit (splitOn_ne_nil sep rest)
      | cons part parts => rfl

end Text

namespace Path

theorem namesOf_append_slash (t u : Text) :
    namesOf (t ++ .scalar '/' :: u) = namesOf t ++ namesOf u := by
  rw [namesOf, Text.splitOn_append_sep, List.filter_append]
  rfl

/-! ## Joined names -/

/-- The text of names with slashes between them. -/
def joined (names : List Text) : Text := Text.join [.scalar '/'] names

theorem joined_concat {names : List Text} (some : names ≠ []) (name : Text) :
    joined (names ++ [name]) = joined names ++ .scalar '/' :: name := by
  induction names with
  | nil => contradiction
  | cons first rest ih =>
    cases rest with
    | nil => simp [joined, Text.join, List.intercalate]
    | cons second more =>
      have step := ih (List.cons_ne_nil _ _)
      simp only [joined, Text.join, List.intercalate, List.cons_append, List.intersperse_cons_cons,
        List.flatten_cons, List.append_assoc] at step ⊢
      rw [step]

theorem joined_singleton (name : Text) : joined [name] = name := by
  simp [joined, Text.join, List.intercalate]

/-- The text of names ends with what their last name ends with, which is no slash. -/
theorem joined_eq_concat {names : List Text} (each : ∀ name ∈ names, IsName name)
    (some : names ≠ []) : ∃ t c, joined names = t ++ [c] ∧ c ≠ .scalar '/' := by
  obtain none | ⟨before, last, rfl⟩ := eq_nil_or_append names
  · exact absurd none some
  have isName := each last (List.mem_append_right _ List.mem_cons_self)
  obtain none | ⟨t, c, rfl⟩ := eq_nil_or_append last
  · exact absurd none isName.some
  have noSlash : c ≠ .scalar '/' := fun isSlash =>
    isName.noSlash (isSlash ▸ List.mem_append_right _ List.mem_cons_self)
  by_cases none : before = []
  · subst none
    exact ⟨t, c, joined_singleton _, noSlash⟩
  · refine ⟨joined before ++ .scalar '/' :: t, c, ?_, noSlash⟩
    rw [joined_concat none, List.append_assoc, List.cons_append]

/-- What is added to the last name is added to the text. -/
theorem joined_append (before : List Text) (last ending : Text) :
    joined (before ++ [last ++ ending]) = joined (before ++ [last]) ++ ending := by
  by_cases none : before = []
  · subst none
    rw [List.nil_append, List.nil_append, joined_singleton, joined_singleton]
  · rw [joined_concat none, joined_concat none, List.append_assoc, List.cons_append]

/-- The text of a relative path is its names with slashes between them, if it has any. -/
theorem text_relative {names : List Text} (some : names ≠ []) :
    Path.text ⟨.relative, names⟩ = joined names := by
  rw [text, if_neg fun none => some none.2]
  rfl

theorem ofText_joined {names : List Text} (each : ∀ name ∈ names, IsName name)
    (some : names ≠ []) : ofText (joined names) = ⟨.relative, names⟩ := by
  rw [← text_relative some]
  exact ofText_text each

/-! ## Folding two dots -/

/-- Names with two dots folded, as far as there are names before them. -/
def normal (names : List Text) : List Text := (names.foldl (Text.normalStep false) []).reverse

theorem mem_normalStep {reversed : List Text} {name other : Text}
    (mem : other ∈ Text.normalStep false reversed name) : other ∈ reversed ∨ other = name := by
  unfold Text.normalStep at mem
  split at mem
  · exact (List.mem_cons.mp mem).symm
  · split at mem
    · exact .inr (List.mem_singleton.mp mem)
    · split at mem
      · exact (List.mem_cons.mp mem).symm
      · exact .inl (List.mem_cons_of_mem _ mem)

theorem mem_foldl_normalStep {names reversed : List Text} {name : Text}
    (mem : name ∈ names.foldl (Text.normalStep false) reversed) :
    name ∈ reversed ∨ name ∈ names := by
  induction names generalizing reversed with
  | nil => exact .inl mem
  | cons first rest ih =>
    rcases ih mem with before | later
    · rcases mem_normalStep before with old | new
      · exact .inl old
      · exact .inr (new ▸ List.mem_cons_self)
    · exact .inr (List.mem_cons_of_mem _ later)

theorem isName_normal {names : List Text} (each : ∀ name ∈ names, IsName name) :
    ∀ name ∈ normal names, IsName name := by
  intro name mem
  rcases mem_foldl_normalStep (List.mem_reverse.mp mem) with none | listed
  · cases none
  · exact each name listed

/-- Two dots that stay at the front stay for good. -/
theorem up_mem_foldl_normalStep {names reversed : List Text} (isUp : up ∈ reversed) :
    up ∈ names.foldl (Text.normalStep false) reversed := by
  induction names generalizing reversed with
  | nil => exact isUp
  | cons first rest ih =>
    apply ih
    unfold Text.normalStep
    split
    · exact List.mem_cons_of_mem _ isUp
    · split
      · cases isUp
      · split
        · exact List.mem_cons_of_mem _ isUp
        · rename_i last rest notUp
          rcases List.mem_cons.mp isUp with same | later
          · exact absurd same.symm notUp
          · exact later

/-- **Folding as a file system does.** Names that do not lead above the start lead to the same place
below any other one. -/
theorem foldl_foldStep_eq (start : List Text) {names reversed : List Text}
    (inside : up ∉ names.foldl (Text.normalStep false) reversed) :
    names.foldl foldStep (start ++ reversed.reverse) =
      start ++ (names.foldl (Text.normalStep false) reversed).reverse := by
  induction names generalizing reversed with
  | nil => rfl
  | cons first rest ih =>
    rw [List.foldl_cons] at inside ⊢
    rw [List.foldl_cons, ← ih inside]
    congr 1
    have noUp : up ∉ Text.normalStep false reversed first := fun isUp =>
      inside (up_mem_foldl_normalStep isUp)
    unfold Text.normalStep at noUp ⊢
    unfold foldStep
    by_cases isUp : first = up
    · rw [if_pos isUp]
      rw [if_neg (not_not_intro isUp)] at noUp ⊢
      cases reversed with
      | nil => exact absurd (isUp ▸ List.mem_singleton_self _) noUp
      | cons last before =>
        dsimp only at noUp ⊢
        split at noUp
        · exact absurd (isUp ▸ List.mem_cons_self) noUp
        · rename_i notUp
          rw [if_neg notUp, List.reverse_cons, ← List.append_assoc, List.dropLast_concat]
    · rw [if_neg isUp, if_pos isUp, List.reverse_cons, List.append_assoc]

end Path

namespace Text

open Path

/-! ## Directories and sources -/

variable {names : List Text}

/-- **The directory** of a file is that of its names but the last one. -/
theorem directory_joined (each : ∀ name ∈ names, IsName name) :
    directory (joined names) = joined names.dropLast := by
  obtain rfl | ⟨before, last, rfl⟩ := eq_nil_or_append names
  · rfl
  have isName := each last (List.mem_append_right _ List.mem_cons_self)
  have eachBefore : ∀ name ∈ before, IsName name := fun name mem =>
    each name (List.mem_append_left _ mem)
  have passed : ∀ c ∈ last.reverse, decide (c ≠ .scalar '/') = true := fun c mem =>
    decide_eq_true fun isSlash => isName.noSlash (isSlash ▸ List.mem_reverse.mp mem)
  rw [List.dropLast_concat, directory]
  by_cases none : before = []
  · subst none
    rw [List.nil_append, joined_singleton, ← List.append_nil last.reverse,
      List.dropWhile_append_of_pos passed]
    rfl
  · obtain ⟨t, c, ends, noSlash⟩ := joined_eq_concat eachBefore none
    have head : (joined (before ++ [last])).reverse.dropWhile (· ≠ .scalar '/') =
        .scalar '/' :: (joined before).reverse := by
      rw [joined_concat none, List.reverse_append, List.reverse_cons, List.append_assoc,
        List.dropWhile_append_of_pos passed]
      rfl
    have trimmed : (CodePoint.scalar '/' :: (joined before).reverse).dropWhile
        (· = .scalar '/') = (joined before).reverse := by
      rw [List.dropWhile_cons_of_pos (by simp), ends, List.reverse_append]
      exact List.dropWhile_cons_of_neg (by simpa using noSlash)
    simp only [head, List.reverse_reverse, trimmed]
    rw [if_neg]
    simp [ends]

/-- A text that is not absolute is joined to names by a slash. -/
theorem joinPath_joined (each : ∀ name ∈ names, IsName name) (some : names ≠ []) {part : Text}
    (relative : startsWith part "/" = false) :
    joinPath (joined names) part = joined names ++ .scalar '/' :: part := by
  obtain ⟨t, c, ends, noSlash⟩ := joined_eq_concat each some
  have noEnd : endsWith (joined names) "/" = false := by
    refine Bool.eq_false_iff.mpr fun isEnd => ?_
    obtain ⟨before, same⟩ := List.isSuffixOf_iff_suffix.mp isEnd
    rw [ends] at same
    have last := (List.append_inj' same rfl).2
    injection last with isSlash
    exact noSlash isSlash.symm
  have filled : (joined names).isEmpty = false := by simp [ends]
  simp only [joinPath, relative, filled, noEnd, Bool.or_self, Bool.false_eq_true, if_false]
  simp [Text.ofString]

theorem eq_dot_of_relative {source : Text} (relative : startsWith source "." = true) :
    ∃ rest, source = .scalar '.' :: rest := by
  obtain ⟨rest, same⟩ := List.isPrefixOf_iff_prefix.mp relative
  exact ⟨rest, same.symm⟩

/-- A source that starts with a dot has no anchor. -/
theorem ofText_relative {source : Text} (relative : startsWith source "." = true) :
    Path.ofText source = ⟨.relative, namesOf source⟩ := by
  obtain ⟨rest, rfl⟩ := eq_dot_of_relative relative
  rfl

/-- A relative source is looked up below the directory that it is joined to. -/
theorem ofText_joinPath (each : ∀ name ∈ names, IsName name) {source : Text}
    (relative : startsWith source "." = true) :
    Path.ofText (joinPath (joined names) source) = ⟨.relative, names ++ namesOf source⟩ := by
  by_cases none : names = []
  · subst none
    obtain ⟨rest, rfl⟩ := eq_dot_of_relative relative
    rfl
  · have noRoot : startsWith source "/" = false := by
      obtain ⟨rest, rfl⟩ := eq_dot_of_relative relative
      rfl
    obtain ⟨t, c, ends, -⟩ := joined_eq_concat each none
    have start : ∀ more, joined names ++ .scalar '/' :: source ≠ .scalar '/' :: more := by
      intro more isSlash
      cases text : joined names with
      | nil => simp [ends] at text
      | cons d ds =>
        rw [text, List.cons_append] at isSlash
        injection isSlash with isSlash
        exact join_ne_slash each ds (text.trans (by rw [isSlash]))
    rw [joinPath_joined each none noRoot, Path.ofText, (anchor_of_other start).1,
      namesOf_append_slash, joined, namesOf_join each]

/-- **A relative source beside a file** leads to the names of the directory of the file and those of
the source, with two dots folded. -/
theorem normalPath_beside (each : ∀ name ∈ names, IsName name) {source : Text}
    (relative : startsWith source "." = true) :
    normalPath (joinPath (directory (joined names)) source) =
      Path.text ⟨.relative, normal (names.dropLast ++ namesOf source)⟩ := by
  have eachBefore : ∀ name ∈ names.dropLast, IsName name := fun name mem =>
    each name ((List.dropLast_sublist names).subset mem)
  rw [normalPath, directory_joined each, ofText_joinPath eachBefore relative]
  rfl

end Text

end JsxOrigin
