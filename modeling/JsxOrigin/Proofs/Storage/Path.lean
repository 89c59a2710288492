import JsxOrigin.Storage.Path

/-!
# Laws of paths

What the names of a path can be, and that a path is told by its text: the names of a file have no
slash in them, so the text of a path can be cut at its slashes again (`Path.text_injective`). That
makes the text of a path good enough to be the key of a store.

**The law** (`Path.ofText_text`): a path is read back from its text, if reading would keep each of
its names. The names of a path that was read are such (`Path.isName_of_mem_ofText`).
-/

namespace JsxOrigin

/-! ## Cutting and joining -/

theorem Text.splitOn_append {sep : CodePoint} {part : Text} (clean : sep ∉ part) (rest : Text) :
    splitOn sep (part ++ sep :: rest) = part :: splitOn sep rest := by
  induction part with
  | nil => simp [splitOn]
  | cons c part ih =>
    simp only [List.mem_cons, not_or] at clean
    rw [List.cons_append, splitOn, if_neg (Ne.symm clean.1), ih clean.2]

theorem Text.splitOn_clean {sep : CodePoint} {part : Text} (clean : sep ∉ part) :
    splitOn sep part = [part] := by
  induction part with
  | nil => rfl
  | cons c part ih =>
    simp only [List.mem_cons, not_or] at clean
    rw [splitOn, if_neg (Ne.symm clean.1), ih clean.2]

/-- Parts without the separator are found again between its occurrences. -/
theorem Text.splitOn_join {sep : CodePoint} {parts : List Text} (nonempty : parts ≠ [])
    (clean : ∀ part ∈ parts, sep ∉ part) : splitOn sep (join [sep] parts) = parts := by
  induction parts with
  | nil => contradiction
  | cons part parts ih =>
    have head := clean part List.mem_cons_self
    cases parts with
    | nil => simpa [join] using splitOn_clean head
    | cons next more =>
      have tail := ih (List.cons_ne_nil _ _) fun p mem => clean p (List.mem_cons_of_mem _ mem)
      have joined : join [sep] (part :: next :: more) =
          part ++ sep :: join [sep] (next :: more) := by
        simp [join, List.intercalate]
      rw [joined, splitOn_append head, tail]

/-- The parts between separators hold nothing but what the text holds. -/
theorem Text.mem_of_mem_splitOn {sep c : CodePoint} {t part : Text} (mem : part ∈ splitOn sep t)
    (inPart : c ∈ part) : c ∈ t := by
  induction t generalizing part with
  | nil =>
    rw [splitOn, List.mem_singleton] at mem
    subst mem
    cases inPart
  | cons d rest ih =>
    rw [splitOn] at mem
    split at mem
    · rcases List.mem_cons.mp mem with rfl | later
      · cases inPart
      · exact List.mem_cons_of_mem _ (ih later inPart)
    · split at mem
      · rw [List.mem_singleton] at mem
        subst mem
        rw [List.mem_singleton.mp inPart]
        exact List.mem_cons_self
      · rename_i first parts isSplit
        rw [isSplit] at ih
        rcases List.mem_cons.mp mem with rfl | later
        · rcases List.mem_cons.mp inPart with rfl | inFirst
          · exact List.mem_cons_self
          · exact List.mem_cons_of_mem _ (ih List.mem_cons_self inFirst)
        · exact List.mem_cons_of_mem _ (ih (List.mem_cons_of_mem _ later) inPart)

theorem Text.mem_join {sep : Text} {parts : List Text} {c : CodePoint} (mem : c ∈ join sep parts) :
    c ∈ sep ∨ ∃ part ∈ parts, c ∈ part := by
  induction parts with
  | nil => simp [join, List.intercalate] at mem
  | cons part parts ih =>
    cases parts with
    | nil =>
      refine .inr ⟨part, List.mem_cons_self, ?_⟩
      simpa [join, List.intercalate] using mem
    | cons next more =>
      have joined : join sep (part :: next :: more) = part ++ sep ++ join sep (next :: more) := by
        simp [join, List.intercalate]
      rw [joined, List.mem_append, List.mem_append] at mem
      rcases mem with (inPart | inSep) | later
      · exact .inr ⟨part, List.mem_cons_self, inPart⟩
      · exact .inl inSep
      · rcases ih later with inSep | ⟨p, listed, inPart⟩
        · exact .inl inSep
        · exact .inr ⟨p, List.mem_cons_of_mem _ listed, inPart⟩

namespace Path

/-! ## Names -/

theorem eq_nil_or_append {α : Type} (items : List α) :
    items = [] ∨ ∃ before last, items = before ++ [last] := by
  rcases List.eq_nil_or_concat items with none | ⟨before, last, same⟩
  · exact .inl none
  · exact .inr ⟨before, last, same.trans (List.concat_eq_append ..)⟩

theorem foldStep_mem {place : List Text} {name other : Text} (mem : other ∈ foldStep place name) :
    other ∈ place ∨ (other = name ∧ name ≠ up) := by
  unfold foldStep at mem
  split at mem
  · exact .inl ((List.dropLast_sublist place).subset mem)
  · rename_i notUp
    rcases List.mem_append.mp mem with old | new
    · exact .inl old
    · exact .inr ⟨List.mem_singleton.mp new, notUp⟩

/-- Folding adds no names of its own, and no two dots. -/
theorem mem_foldl_foldStep {start names : List Text} {name : Text}
    (mem : name ∈ names.foldl foldStep start) : name ∈ start ∨ (name ∈ names ∧ name ≠ up) := by
  induction names generalizing start with
  | nil => exact .inl mem
  | cons first rest ih =>
    rcases ih mem with inStart | ⟨inRest, notUp⟩
    · rcases foldStep_mem inStart with old | ⟨rfl, notUp⟩
      · exact .inl old
      · exact .inr ⟨List.mem_cons_self, notUp⟩
    · exact .inr ⟨List.mem_cons_of_mem _ inRest, notUp⟩

/-- Names without two dots lead on one by one. -/
theorem foldl_foldStep_of_folded (start : List Text) {names : List Text} (folded : up ∉ names) :
    names.foldl foldStep start = start ++ names := by
  induction names generalizing start with
  | nil => rw [List.foldl_nil, List.append_nil]
  | cons name rest ih =>
    rw [List.mem_cons, not_or] at folded
    rw [List.foldl_cons, foldStep, if_neg (Ne.symm folded.1), ih _ folded.2, List.append_assoc,
      List.singleton_append]

/-! ## Sizes -/

theorem size_append (names others : List Text) :
    size (names ++ others) = size names + size others := by
  induction names with
  | nil => simp [size]
  | cons name rest ih =>
    show nameSize name + 1 + size (rest ++ others) = nameSize name + 1 + size rest + size others
    omega

/-- Two dots make a path shorter, and any other name adds its own size. -/
theorem size_foldStep_le (place : List Text) (name : Text) :
    size (foldStep place name) ≤ size place + size [name] := by
  unfold foldStep
  split
  · obtain ⟨last, whole⟩ := List.dropLast_prefix place
    have parts := size_append place.dropLast last
    rw [whole] at parts
    omega
  · exact Nat.le_of_eq (size_append _ _)

theorem size_foldl_le (start names : List Text) :
    size (names.foldl foldStep start) ≤ size start + size names := by
  induction names generalizing start with
  | nil => exact Nat.le_refl _
  | cons name rest ih =>
    have step := size_foldStep_le start name
    have later := ih (foldStep start name)
    have parts : size (name :: rest) = size [name] + size rest := size_append [name] rest
    rw [List.foldl_cons]
    omega

/-! ## Sound names -/

theorem nameError?_eq_none_iff (name : Text) : nameError? name = none ↔
    name.any CodePoint.isUnencodable = false ∧ name.contains (.scalar '\x00') = false := by
  unfold nameError?
  cases name.any CodePoint.isUnencodable <;> cases name.contains (.scalar '\x00') <;> simp

/-- A path is sound as a whole if and only if each of its names is. -/
theorem error?_eq_none_iff (path : Path) :
    path.error? = none ↔ ∀ name ∈ path.names, nameError? name = none := by
  simp only [error?, nameError?_eq_none_iff, List.any_eq_false, List.contains_eq_any_beq,
    List.mem_flatten]
  constructor
  · rintro ⟨encodable, noNul⟩ name mem
    exact ⟨fun c inName => encodable c ⟨name, mem, inName⟩,
      fun c inName => noNul c ⟨name, mem, inName⟩⟩
  · intro each
    refine ⟨?_, ?_⟩
    · rintro c ⟨name, mem, inName⟩
      exact (each name mem).1 c inName
    · rintro c ⟨name, mem, inName⟩
      exact (each name mem).2 c inName

/-- The names of a path that was read from a text have no slash in them. -/
theorem slash_not_mem_ofText {t name : Text} (mem : name ∈ (ofText t).names) :
    .scalar '/' ∉ name := by
  have inParts : name ∈ Text.splitOn (.scalar '/') t := (List.mem_filter.mp mem).1
  clear mem
  induction t generalizing name with
  | nil =>
    rw [Text.splitOn, List.mem_singleton] at inParts
    subst inParts
    exact List.not_mem_nil
  | cons c rest ih =>
    rw [Text.splitOn] at inParts
    split at inParts
    · rcases List.mem_cons.mp inParts with rfl | later
      · exact List.not_mem_nil
      · exact ih later
    · rename_i notSlash
      split at inParts
      · rw [List.mem_singleton] at inParts
        subst inParts
        simpa using Ne.symm notSlash
      · rename_i part parts isSplit
        rw [isSplit] at ih
        rcases List.mem_cons.mp inParts with rfl | later
        · have noSlash := ih List.mem_cons_self
          simpa [Ne.symm notSlash] using noSlash
        · exact ih (List.mem_cons_of_mem _ later)

/-- A name that stays when a path is read from a text. -/
structure IsName (name : Text) : Prop where
  some : name ≠ []
  notDot : name ≠ [.scalar '.']
  noSlash : .scalar '/' ∉ name

theorem isName_of_mem_ofText {t name : Text} (mem : name ∈ (ofText t).names) : IsName name := by
  have kept := (List.mem_filter.mp mem).2
  simp only [ne_eq, Bool.decide_and, Bool.and_eq_true, decide_eq_true_eq] at kept
  exact ⟨kept.1, kept.2, slash_not_mem_ofText mem⟩

/-! ## Texts -/

/-- **Keys.** Paths with an anchor in common and names without slashes are told apart by their
texts. -/
theorem text_injective {anchor : Anchor} {names others : List Text} (some : names ≠ [])
    (someOthers : others ≠ []) (clean : ∀ name ∈ names, .scalar '/' ∉ name)
    (cleanOthers : ∀ name ∈ others, .scalar '/' ∉ name)
    (same : (Path.mk anchor names).text = (Path.mk anchor others).text) : names = others := by
  have slash : Text.ofString "/" = [.scalar '/'] := rfl
  simp only [text, some, someOthers, and_false, if_false, slash] at same
  have joined := List.append_cancel_left same
  rw [← Text.splitOn_join some clean, ← Text.splitOn_join someOthers cleanOthers, joined]

/-! ## Reading texts back -/

theorem namesOf_join {names : List Text} (each : ∀ name ∈ names, IsName name) :
    namesOf (Text.join [.scalar '/'] names) = names := by
  by_cases none : names = []
  · subst none
    rfl
  · rw [namesOf, Text.splitOn_join none fun name mem => (each name mem).noSlash]
    apply List.filter_eq_self.mpr
    intro name mem
    have isName := each name mem
    simp [isName.some, isName.notDot]

theorem namesOf_slash (t : Text) : namesOf (.scalar '/' :: t) = namesOf t := by
  rw [namesOf, Text.splitOn, if_pos rfl]
  rfl

theorem anchor_of_other {t : Text} (start : ∀ rest, t ≠ .scalar '/' :: rest) :
    Anchor.ofText t = .relative ∧ Anchor.ofText (.scalar '/' :: t) = .root ∧
      Anchor.ofText (.scalar '/' :: .scalar '/' :: t) = .doubleRoot := by
  cases t with
  | nil => exact ⟨rfl, rfl, rfl⟩
  | cons c rest =>
    have other : c ≠ .scalar '/' := fun isSlash => start rest (by rw [isSlash])
    refine ⟨?_, ?_, ?_⟩ <;> simp [Anchor.ofText, other]

/-- Joined names do not start with a slash. -/
theorem join_ne_slash {names : List Text} (each : ∀ name ∈ names, IsName name) (rest : Text) :
    Text.join [.scalar '/'] names ≠ .scalar '/' :: rest := by
  cases names with
  | nil => simp [Text.join, List.intercalate]
  | cons name more =>
    have isName := each name List.mem_cons_self
    cases name with
    | nil => exact absurd rfl isName.some
    | cons c name =>
      have first : ∃ later, Text.join [.scalar '/'] ((c :: name) :: more) = c :: later := by
        cases more <;> simp [Text.join, List.intercalate]
      obtain ⟨later, joined⟩ := first
      rw [joined]
      intro isSlash
      injection isSlash with isSlash
      exact isName.noSlash (isSlash ▸ List.mem_cons_self)

/-- **A path is read back from its text.** -/
theorem ofText_text {p : Path} (each : ∀ name ∈ p.names, IsName name) : ofText p.text = p := by
  obtain ⟨anchor, names⟩ := p
  obtain ⟨relative, root, doubleRoot⟩ := anchor_of_other (join_ne_slash each)
  have read := namesOf_join each
  unfold text
  split
  · rename_i isDot
    obtain ⟨rfl, rfl⟩ := isDot
    rfl
  · cases anchor with
    | relative => exact congr (congrArg Path.mk relative) read
    | root => exact congr (congrArg Path.mk root) ((namesOf_slash _).trans read)
    | doubleRoot =>
      exact congr (congrArg Path.mk doubleRoot)
        ((namesOf_slash _).trans ((namesOf_slash _).trans read))

/-- **Keys.** Paths that were read from texts are told apart by their own texts. -/
theorem ofText_eq_of_text_eq {t u : Text} (same : (ofText t).text = (ofText u).text) :
    ofText t = ofText u := by
  rw [← ofText_text (p := ofText t) fun _ => isName_of_mem_ofText, same,
    ofText_text fun _ => isName_of_mem_ofText]

theorem eq_slash_of_mem_anchor {anchor : Anchor} {c : CodePoint} (mem : c ∈ anchor.text) :
    c = .scalar '/' := by
  cases anchor with
  | relative => cases mem
  | root => exact List.mem_singleton.mp mem
  | doubleRoot =>
    rcases List.mem_cons.mp mem with rfl | second
    · rfl
    · exact List.mem_singleton.mp second

/-- The text of a path holds slashes, dots, and what its names hold. -/
theorem mem_text {p : Path} {c : CodePoint} (mem : c ∈ p.text) :
    c = .scalar '/' ∨ c = .scalar '.' ∨ ∃ name ∈ p.names, c ∈ name := by
  unfold text at mem
  split at mem
  · exact .inr (.inl (List.mem_singleton.mp mem))
  · rcases List.mem_append.mp mem with inAnchor | inNames
    · exact .inl (eq_slash_of_mem_anchor inAnchor)
    · rcases Text.mem_join inNames with inSlash | inName
      · exact .inl (List.mem_singleton.mp inSlash)
      · exact .inr (.inr inName)

end Path

end JsxOrigin
