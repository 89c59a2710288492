import JsxOrigin.Json.Reader
import JsxOrigin.Json.Writer
import JsxOrigin.Proofs.Table
import JsxOrigin.Proofs.Text.Pairs

/-!
# JSON read back

Module graphs are kept as JSON text, so what a kept graph says is what reading makes of the written
form. The writer spells every code point beyond ASCII by its 16-bit units, and the reader joins
surrogate pairs; hence a string comes back with its pairs joined and is otherwise as it was.

**The law** (`Json.parse_render`): a value made of strings, arrays and objects is read back from its
written form as the value with joined strings, as long as its objects name no member twice.
-/

namespace JsxOrigin

namespace Json

/-! ## What is read back -/

mutual

/-- A value with the surrogate pairs of its strings joined. -/
def joined : Json → Json
  | str t => str t.joinPairs
  | arr items => arr (joinedItems items)
  | obj members => obj (joinedMembers members)
  | j => j

/-- The items of an array with their pairs joined. -/
def joinedItems : List Json → List Json
  | [] => []
  | j :: rest => joined j :: joinedItems rest

/-- The members of an object with their pairs joined. -/
def joinedMembers : List (Text × Json) → List (Text × Json)
  | [] => []
  | (k, j) :: rest => (k.joinPairs, joined j) :: joinedMembers rest

end

theorem joinedItems_eq_map (items : List Json) : joinedItems items = items.map joined := by
  induction items with
  | nil => rfl
  | cons j rest ih => rw [joinedItems, ih, List.map_cons]

theorem joinedMembers_eq_map (members : List (Text × Json)) :
    joinedMembers members = members.map fun m => (m.1.joinPairs, m.2.joined) := by
  induction members with
  | nil => rfl
  | cons m rest ih => rw [joinedMembers, ih, List.map_cons]

/-- A value made of strings, arrays and objects, at most `room` of the latter inside each other, in
which no object has two members of one joined name. -/
inductive Textual : Nat → Json → Prop where
  | str (room : Nat) (t : Text) : Textual room (str t)
  | arr {room : Nat} {items : List Json} (each : ∀ j ∈ items, Textual room j) :
    Textual (room + 1) (arr items)
  | obj {room : Nat} {members : List (Text × Json)} (each : ∀ m ∈ members, Textual room m.2)
    (distinct : (members.map fun m => m.1.joinPairs).Nodup) : Textual (room + 1) (obj members)

namespace Reader

/-! ## Strings -/

theorem digit?_digitChar : ∀ d < 16, (CodePoint.scalar d.digitChar).digit? 16 = some d := by
  decide

theorem isDigit_digitChar {d : Nat} (small : d < 16) :
    (CodePoint.scalar d.digitChar).isDigit 16 = true := by
  rw [CodePoint.isDigit, digit?_digitChar d small]
  rfl

/-- The four digits of a 16-bit unit. -/
theorem hexadecimal_four {u : Nat} (bound : u < 0x10000) :
    Text.hexadecimal 4 u =
      [.scalar (u / 0x1000).digitChar, .scalar (u / 0x100 % 16).digitChar,
        .scalar (u / 0x10 % 16).digitChar, .scalar (u % 16).digitChar] := by
  have split (n : Nat) : Nat.toDigits 16 n =
      if n < 16 then [n.digitChar] else Nat.toDigits 16 (n / 16) ++ [(n % 16).digitChar] :=
    Nat.toDigits_eq_if (by decide)
  have zero : '0' = Nat.digitChar 0 := rfl
  simp only [Text.hexadecimal, zero]
  -- one case for each number of digits before padding
  by_cases one : u < 0x10
  · rw [split, if_pos one]
    have : u / 0x1000 = 0 ∧ u / 0x100 % 16 = 0 ∧ u / 0x10 % 16 = 0 ∧ u % 16 = u := by omega
    simp [this]
  by_cases two : u < 0x100
  · rw [split, if_neg one, split (u / 16), if_pos (by omega)]
    have : u / 0x1000 = 0 ∧ u / 0x100 % 16 = 0 ∧ u / 0x10 % 16 = u / 16 := by omega
    simp [this, List.replicate]
  by_cases three : u < 0x1000
  · rw [split, if_neg one, split (u / 16), if_neg (by omega), split (u / 16 / 16),
      if_pos (by omega)]
    have : u / 0x1000 = 0 ∧ u / 0x100 % 16 = u / 16 / 16 := by omega
    simp [this]
  · rw [split, if_neg one, split (u / 16), if_neg (by omega), split (u / 16 / 16),
      if_neg (by omega), split (u / 16 / 16 / 16), if_pos (by omega)]
    have : u / 0x1000 = u / 16 / 16 / 16 ∧ u / 0x100 = u / 16 / 16 := by omega
    simp [this]

theorem hex4?_hexadecimal {u : Nat} (bound : u < 0x10000) :
    hex4? (.scalar (u / 0x1000).digitChar) (.scalar (u / 0x100 % 16).digitChar)
      (.scalar (u / 0x10 % 16).digitChar) (.scalar (u % 16).digitChar) = CodePoint.ofNat? u := by
  have d₃ : u / 0x1000 < 16 := by omega
  have d₂ : u / 0x100 % 16 < 16 := by omega
  have d₁ : u / 0x10 % 16 < 16 := by omega
  have d₀ : u % 16 < 16 := by omega
  have value : (((0 * 16 + u / 0x1000) * 16 + u / 0x100 % 16) * 16 + u / 0x10 % 16) * 16 + u % 16 =
      u := by omega
  simp only [hex4?, Text.numeral, List.all_cons, List.all_nil, isDigit_digitChar, d₃, d₂, d₁, d₀,
    Bool.and_self, if_true, List.foldl_cons, List.foldl_nil, digit?_digitChar, Option.getD_some,
    value]

/-- A unit written by its four digits is read as the code point that it names. -/
theorem stringBody_unit {u : Nat} {p : CodePoint} (bound : u < 0x10000)
    (names : CodePoint.ofNat? u = some p) {rest t r : Text} (tail : stringBody rest = .ok (t, r)) :
    stringBody (Text.ofString "\\u" ++ Text.hexadecimal 4 u ++ rest) = .ok (p :: t, r) := by
  have slashU : Text.ofString "\\u" = [.scalar '\\', .scalar 'u'] := rfl
  rw [hexadecimal_four bound, slashU]
  simp only [List.cons_append, List.nil_append, stringBody, hex4?_hexadecimal bound, names, tail]
  rfl

theorem stringBody_units {us : List Nat}
    (named : ∀ u ∈ us, u < 0x10000 ∧ ∃ p, CodePoint.ofNat? u = some p) {rest t r : Text}
    (tail : stringBody rest = .ok (t, r)) :
    stringBody (us.flatMap (fun u => Text.ofString "\\u" ++ Text.hexadecimal 4 u) ++ rest) =
      .ok (us.filterMap CodePoint.ofNat? ++ t, r) := by
  induction us with
  | nil => simpa using tail
  | cons u us ih =>
    obtain ⟨bound, p, names⟩ := named u (by simp)
    have read := stringBody_unit bound names (ih fun v mem => named v (by simp [mem]))
    simpa [names] using read

/-- **A code point** is read back as its halves, whichever way it was written. -/
theorem stringBody_codePoint (c : CodePoint) {rest t r : Text}
    (tail : stringBody rest = .ok (t, r)) :
    stringBody (Writer.codePoint c ++ rest) = .ok (c.halves ++ t, r) := by
  have escaped (e p : Char) (means : simpleEscape? (.scalar e) = some (.scalar p)) (notU : e ≠ 'u')
      (small : (CodePoint.scalar p).val < 0x10000) :
      stringBody (.scalar '\\' :: .scalar e :: rest) =
        .ok ((CodePoint.scalar p).halves ++ t, r) := by
    rw [stringBody]
    · simp only [means, tail, CodePoint.halves_of_lt small]
      rfl
    · intro _ _ _ _ _ isU
      exact absurd (CodePoint.scalar.inj isU) notU
  unfold Writer.codePoint
  split
  · exact escaped '"' '"' rfl (by decide) (by decide)
  · exact escaped '\\' '\\' rfl (by decide) (by decide)
  · exact escaped 'n' '\n' rfl (by decide) (by decide)
  · exact escaped 'r' '\r' rfl (by decide) (by decide)
  · exact escaped 't' '\t' rfl (by decide) (by decide)
  · exact escaped 'b' '\x08' rfl (by decide) (by decide)
  · exact escaped 'f' '\x0c' rfl (by decide) (by decide)
  · rename_i notQuote notBackslash _ _ _ _ _
    split
    · rename_i printable
      have plain : ¬ (c.val < 0x20 ∨ c = .scalar '\\') := by
        rintro (control | backslash)
        · omega
        · exact notBackslash backslash
      have small : c.val < 0x10000 := by omega
      rw [CodePoint.halves_of_lt small, List.singleton_append, stringBody, if_neg plain, tail]
      · rfl
      · exact notQuote
      · rintro _ _ _ _ _ rfl
        exact absurd rfl notBackslash
      · rintro _ _ rfl
        exact absurd rfl notBackslash
    · exact stringBody_units (fun u mem => CodePoint.ofNat?_of_mem_units mem) tail

theorem stringBody_render (t rest : Text) :
    stringBody (t.flatMap Writer.codePoint ++ .scalar '"' :: rest) = .ok (t.halves, rest) := by
  induction t with
  | nil => rfl
  | cons c t ih =>
    rw [List.flatMap_cons, List.append_assoc, Text.halves_cons]
    exact stringBody_codePoint c ih

/-- **Strings.** A written string is read back with its pairs of surrogates joined. -/
theorem string_render (t rest : Text) :
    string (t.flatMap Writer.codePoint ++ .scalar '"' :: rest) = .ok (t.joinPairs, rest) := by
  rw [string, stringBody_render]
  simp [Except.map, Text.joinPairs_halves]

/-! ## Values -/

theorem skipSpace_cons {c : CodePoint} (solid : isSpace c = false) (rest : Text) :
    skipSpace (c :: rest) = c :: rest := by
  simp [skipSpace, solid]

theorem skipSpace_blank (rest : Text) : skipSpace (.scalar ' ' :: rest) = skipSpace rest := by
  rfl

/-- The code points that a string, an array and an object start with. -/
def openers : List CodePoint := [.scalar '"', .scalar '[', .scalar '{']

theorem isSpace_opener : ∀ c ∈ openers, isSpace c = false := by decide

theorem render_starts {room : Nat} {j : Json} (textual : Textual room j) :
    ∃ c ∈ openers, ∃ more, render j = c :: more := by
  cases textual with
  | str t => exact ⟨.scalar '"', by decide, _, rfl⟩
  | arr each => exact ⟨.scalar '[', by decide, _, rfl⟩
  | obj each distinct => exact ⟨.scalar '{', by decide, _, rfl⟩

theorem skipSpace_render {room : Nat} {j : Json} (textual : Textual room j) (rest : Text) :
    skipSpace (render j ++ rest) = render j ++ rest := by
  obtain ⟨c, opener, more, starts⟩ := render_starts textual
  rw [starts]
  exact skipSpace_cons (isSpace_opener c opener) _

/-- A value is read back from its written form, whatever follows it. -/
def ReadBack (room : Nat) (j : Json) : Prop :=
  ∀ fuel rest, 2 * (render j).length < fuel →
    value fuel room (render j ++ rest) = .ok (j.joined, rest)

theorem renderItems_cons_cons (j k : Json) (ks : List Json) :
    renderItems (j :: k :: ks) =
      render j ++ .scalar ',' :: .scalar ' ' :: renderItems (k :: ks) := by
  have comma : Text.ofString ", " = [.scalar ',', .scalar ' '] := rfl
  rw [renderItems, comma]
  · simp
  · simp

theorem renderMembers_cons_cons (m n : Text × Json) (ns : List (Text × Json)) :
    renderMembers (m :: n :: ns) =
      Writer.string m.1 ++ .scalar ':' :: .scalar ' ' ::
        (render m.2 ++ .scalar ',' :: .scalar ' ' :: renderMembers (n :: ns)) := by
  have colon : Text.ofString ": " = [.scalar ':', .scalar ' '] := rfl
  have comma : Text.ofString ", " = [.scalar ',', .scalar ' '] := rfl
  rw [renderMembers, colon, comma]
  · simp
  · simp

theorem renderMembers_singleton (m : Text × Json) :
    renderMembers [m] = Writer.string m.1 ++ .scalar ':' :: .scalar ' ' :: render m.2 := by
  have colon : Text.ofString ": " = [.scalar ':', .scalar ' '] := rfl
  rw [renderMembers, colon]
  simp

theorem writer_string (t rest : Text) :
    Writer.string t ++ rest =
      .scalar '"' :: (t.flatMap Writer.codePoint ++ .scalar '"' :: rest) := by
  have quote : Text.ofString "\"" = [.scalar '"'] := rfl
  rw [Writer.string, quote]
  simp

theorem renderItems_starts {room : Nat} {xs : List Json} (nonempty : xs ≠ [])
    (textual : ∀ j ∈ xs, Textual room j) :
    ∃ c ∈ openers, ∃ more, renderItems xs = c :: more := by
  obtain ⟨j, xs, rfl⟩ := List.exists_cons_of_ne_nil nonempty
  obtain ⟨c, opener, more, starts⟩ := render_starts (textual j (by simp))
  cases xs with
  | nil => exact ⟨c, opener, more, by rw [renderItems, starts]⟩
  | cons k ks => exact ⟨c, opener, _, by rw [renderItems_cons_cons, starts]; rfl⟩

theorem renderMembers_starts {ms : List (Text × Json)} (nonempty : ms ≠ []) :
    ∃ more, renderMembers ms = .scalar '"' :: more := by
  obtain ⟨m, ms, rfl⟩ := List.exists_cons_of_ne_nil nonempty
  cases ms with
  | nil => exact ⟨_, by rw [renderMembers_singleton, writer_string]⟩
  | cons n ns => exact ⟨_, by rw [renderMembers_cons_cons, writer_string]⟩

theorem items_render {room : Nat} {xs : List Json} (nonempty : xs ≠ [])
    (textual : ∀ j ∈ xs, Textual room j) (each : ∀ j ∈ xs, ReadBack room j) (fuel : Nat)
    (rest : Text) (enough : 2 * (renderItems xs).length + 1 < fuel) :
    items fuel room (renderItems xs ++ .scalar ']' :: rest) = .ok (xs.map joined, rest) := by
  induction xs generalizing fuel with
  | nil => contradiction
  | cons j xs ih =>
    obtain ⟨fuel, rfl⟩ : ∃ n, fuel = n + 1 := ⟨fuel - 1, by omega⟩
    have readFirst := each j (by simp)
    have comma : isSpace (.scalar ',') = false := rfl
    cases xs with
    | nil =>
      rw [renderItems] at enough ⊢
      rw [items, readFirst fuel _ (by omega)]
      rfl
    | cons k ks =>
      have restTextual : ∀ x ∈ k :: ks, Textual room x := fun x mem => textual x (by simp [mem])
      obtain ⟨c, opener, more, starts⟩ := renderItems_starts (by simp) restTextual
      rw [renderItems_cons_cons] at enough ⊢
      simp only [List.length_append, List.length_cons] at enough
      have readRest := ih (by simp) restTextual (fun x mem => each x (by simp [mem])) fuel
        (by omega)
      have blank : skipSpace (.scalar ' ' :: (renderItems (k :: ks) ++ .scalar ']' :: rest)) =
          renderItems (k :: ks) ++ .scalar ']' :: rest := by
        rw [skipSpace_blank, starts]
        exact skipSpace_cons (isSpace_opener c opener) _
      rw [items, List.append_assoc, readFirst fuel _ (by omega)]
      simp only [List.cons_append, bind, Except.bind, skipSpace_cons comma, blank, readRest]
      rfl

theorem members_render {room : Nat} {ms : List (Text × Json)} (nonempty : ms ≠ [])
    (textual : ∀ m ∈ ms, Textual room m.2) (each : ∀ m ∈ ms, ReadBack room m.2) (fuel : Nat)
    (rest : Text) (enough : 2 * (renderMembers ms).length + 1 < fuel) :
    members fuel room (renderMembers ms ++ .scalar '}' :: rest) =
      .ok (ms.map fun m => (m.1.joinPairs, m.2.joined), rest) := by
  induction ms generalizing fuel with
  | nil => contradiction
  | cons m ms ih =>
    obtain ⟨fuel, rfl⟩ : ∃ n, fuel = n + 1 := ⟨fuel - 1, by omega⟩
    have readFirst := each m (by simp)
    have blank (more : Text) :
        skipSpace (.scalar ' ' :: (render m.2 ++ more)) = render m.2 ++ more := by
      rw [skipSpace_blank, skipSpace_render (textual m (by simp))]
    have colon : isSpace (.scalar ':') = false := rfl
    have comma : isSpace (.scalar ',') = false := rfl
    cases ms with
    | nil =>
      rw [renderMembers_singleton] at enough ⊢
      simp only [List.length_append, List.length_cons] at enough
      have ample : 2 * (render m.2).length < fuel := by omega
      rw [List.append_assoc, writer_string, members]
      simp only [string_render, bind, Except.bind, List.cons_append, skipSpace_cons colon, blank,
        readFirst fuel _ ample]
      rfl
    | cons n ns =>
      obtain ⟨more, starts⟩ := renderMembers_starts (List.cons_ne_nil n ns)
      rw [renderMembers_cons_cons] at enough ⊢
      simp only [List.length_append, List.length_cons] at enough
      have ample : 2 * (render m.2).length < fuel := by omega
      have readRest := ih (by simp) (fun x mem => textual x (by simp [mem]))
        (fun x mem => each x (by simp [mem])) fuel (by omega)
      have blankRest : skipSpace (.scalar ' ' :: (renderMembers (n :: ns) ++ .scalar '}' :: rest)) =
          renderMembers (n :: ns) ++ .scalar '}' :: rest := by
        rw [skipSpace_blank, starts]
        exact skipSpace_cons (by decide) _
      rw [List.append_assoc, writer_string, members]
      simp only [string_render, bind, Except.bind, List.cons_append, List.append_assoc,
        skipSpace_cons colon, blank, readFirst fuel _ ample, skipSpace_cons comma, blankRest,
        readRest]
      rfl

theorem value_render {room : Nat} {j : Json} (textual : Textual room j) : ReadBack room j := by
  induction textual with
  | str room t =>
    intro fuel rest enough
    obtain ⟨fuel, rfl⟩ : ∃ n, fuel = n + 1 := ⟨fuel - 1, by omega⟩
    have written : render (.str t) = Writer.string t := rfl
    rw [written, writer_string, value, string_render]
    rfl
  | @arr room xs each ih =>
    intro fuel rest enough
    obtain ⟨fuel, rfl⟩ : ∃ n, fuel = n + 1 := ⟨fuel - 1, by omega⟩
    have written : render (.arr xs) ++ rest =
        .scalar '[' :: (renderItems xs ++ .scalar ']' :: rest) := by
      rw [render]
      simp [Text.ofString]
    have length : (render (.arr xs)).length = (renderItems xs).length + 2 := by
      rw [render]
      simp [Text.ofString]
    rw [written, value, joined, joinedItems_eq_map]
    by_cases empty : xs = []
    · subst empty
      rfl
    · obtain ⟨c, opener, more, starts⟩ := renderItems_starts empty each
      have solid : skipSpace (renderItems xs ++ .scalar ']' :: rest) =
          renderItems xs ++ .scalar ']' :: rest := by
        rw [starts]
        exact skipSpace_cons (isSpace_opener c opener) _
      have read := items_render empty each ih fuel rest (by omega)
      rw [solid]
      split
      · rename_i close
        rw [starts] at close
        have isClose : c = .scalar ']' := (List.cons.inj close).1
        exact absurd (isClose ▸ opener) (by decide)
      · rw [read]
        rfl
  | @obj room ms each distinct ih =>
    intro fuel rest enough
    obtain ⟨fuel, rfl⟩ : ∃ n, fuel = n + 1 := ⟨fuel - 1, by omega⟩
    have written : render (.obj ms) ++ rest =
        .scalar '{' :: (renderMembers ms ++ .scalar '}' :: rest) := by
      rw [render]
      simp [Text.ofString]
    have length : (render (.obj ms)).length = (renderMembers ms).length + 2 := by
      rw [render]
      simp [Text.ofString]
    rw [written, value, joined, joinedMembers_eq_map]
    by_cases empty : ms = []
    · subst empty
      rfl
    · obtain ⟨more, starts⟩ := renderMembers_starts empty
      have solid : skipSpace (renderMembers ms ++ .scalar '}' :: rest) =
          renderMembers ms ++ .scalar '}' :: rest := by
        rw [starts]
        exact skipSpace_cons (by decide) _
      have read := members_render empty each ih fuel rest (by omega)
      rw [solid]
      split
      · rename_i close
        rw [starts] at close
        simp at close
      · rw [read]
        have once : Table.ofList (ms.map fun m => (m.1.joinPairs, m.2.joined)) =
            ms.map fun m => (m.1.joinPairs, m.2.joined) :=
          Table.ofList_of_nodup (by simpa [Function.comp_def] using distinct)
        simp only [Except.map, once]

end Reader

/-- **The round trip** of a value made of strings, arrays and objects. -/
theorem parse_render {j : Json} (textual : Textual Reader.depthLimit j) :
    parse (render j) = .ok j.joined := by
  have solid := Reader.skipSpace_render textual []
  have read := Reader.value_render textual (2 * (render j).length + 2) [] (by omega)
  rw [List.append_nil] at solid read
  rw [parse, solid, read]
  rfl

end Json

end JsxOrigin
