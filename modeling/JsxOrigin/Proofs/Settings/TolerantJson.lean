import JsxOrigin.Proofs.Json.Layout
import JsxOrigin.Settings.TolerantJson
import Mathlib.Data.List.Chain

/-!
# Tolerant JSON read as JSON

A configuration file is a JSON document with more around its tokens: comments besides white space,
and a comma before a closing bracket. Taking the comments out leaves the tokens with white space
around them, and these commas; taking the commas out then leaves the tokens alone.

**The law** (`Tsconfig.clean_decorated`): what is left of a decorated document is its tokens, laid
out, and hence it is read as the document is. Comments may hold quotes and strings may hold what
would be a comment or a comma elsewhere.
-/

namespace JsxOrigin

namespace Tsconfig

open Json (mark IsSpaces IsToken StringPiece StringToken NumberToken Document Spaced)

/-! ## Decoration -/

/-- What may stand between tokens: white space, comments up to the end of a line, and comments
between stars. -/
inductive Filler : Text → Prop where
  | nil : Filler []
  | space {c : CodePoint} {t : Text} (isSpace : Json.Reader.isSpace c = true) (more : Filler t) :
    Filler (c :: t)
  | line {body t : Text} (inLine : .scalar '\n' ∉ body) (more : Filler t) :
    Filler (.scalar '/' :: .scalar '/' :: (body ++ .scalar '\n' :: t))
  | block {body t : Text} (inStars : Text.occursIn (Text.ofString "*/") body = false)
    (more : Filler t) :
    Filler (.scalar '/' :: .scalar '*' :: (body ++ .scalar '*' :: .scalar '/' :: t))

/-- What may stand after the last token: also a comment that ends with the text. -/
inductive LastFiller : Text → Prop where
  | filler {t : Text} (isFiller : Filler t) : LastFiller t
  | line {t body : Text} (isFiller : Filler t) (inLine : .scalar '\n' ∉ body) :
    LastFiller (t ++ .scalar '/' :: .scalar '/' :: body)

/-- The closing brackets. -/
def closers : List Text := [mark ']', mark '}']

/-- **Tokens decorated**: fillers stand before, between and after tokens, and a comma may have been
added before a closing bracket. -/
inductive Decorated (filler last : Text → Prop) : List Text → Text → Prop where
  | done {g : Text} (isLast : last g) : Decorated filler last [] g
  | token {g t rest : Text} {tokens : List Text} (isFiller : filler g)
    (more : Decorated filler last tokens rest) :
    Decorated filler last (t :: tokens) (g ++ (t ++ rest))
  | comma {g h t rest : Text} {tokens : List Text} (isFiller : filler g) (isFiller' : filler h)
    (closes : t ∈ closers) (more : Decorated filler last tokens rest) :
    Decorated filler last (t :: tokens) (g ++ .scalar ',' :: (h ++ (t ++ rest)))

/-! ## String literals -/

theorem literalRest?_plain (lineFeeds : Bool) {t : Text}
    (plain : ∀ c ∈ t, c ≠ .scalar '"' ∧ c ≠ .scalar '\\') (rest : Text) :
    literalRest? lineFeeds (t ++ rest) = (literalRest? lineFeeds rest).map (· + t.length) := by
  induction t with
  | nil => simp
  | cons c t ih =>
    obtain ⟨⟨noQuote, noBackslash⟩, others⟩ := List.forall_mem_cons.mp plain
    rw [List.cons_append, literalRest?, ih others]
    · simp [Function.comp_def, Nat.add_assoc]
    · exact noQuote
    · exact fun _ _ backslash => absurd backslash noBackslash
    · exact fun backslash => absurd backslash noBackslash

theorem literalRest?_escape (lineFeeds : Bool) {c : CodePoint} (other : c ≠ .scalar '\n')
    (rest : Text) :
    literalRest? lineFeeds (.scalar '\\' :: c :: rest) =
      (literalRest? lineFeeds rest).map (· + 2) := by
  rw [literalRest?, if_neg fun lineFeed => other lineFeed.1]

/-- A piece of a string never ends a string literal. -/
theorem literalRest?_piece (lineFeeds : Bool) (piece : StringPiece) (rest : Text) :
    literalRest? lineFeeds (piece.text ++ rest) =
      (literalRest? lineFeeds rest).map (· + piece.text.length) := by
  cases piece with
  | raw c visible plain =>
    refine literalRest?_plain lineFeeds (fun d mem => ?_) rest
    cases List.mem_singleton.mp mem
    exact ⟨fun same => plain.1 (CodePoint.scalar.inj same),
      fun same => plain.2 (CodePoint.scalar.inj same)⟩
  | escape letter c listed =>
    have noLineFeed : ∀ e ∈ Json.escapes, CodePoint.scalar e.1 ≠ .scalar '\n' := by decide
    exact literalRest?_escape lineFeeds (noLineFeed _ listed) rest
  | unit digits c four hexadecimal named =>
    have plain : ∀ d ∈ digits, d ≠ .scalar '"' ∧ d ≠ .scalar '\\' := by
      intro d mem
      constructor <;> rintro rfl <;> exact absurd (hexadecimal _ mem) (by decide)
    rw [StringPiece.text, List.cons_append, List.cons_append, literalRest?_escape _ (by decide),
      literalRest?_plain lineFeeds plain, Option.map_map]
    rfl

/-- The rest of a string token is a string literal up to its closing quote. -/
theorem literalRest?_token (lineFeeds : Bool) (s : StringToken) (rest : Text) :
    literalRest? lineFeeds (s.body ++ .scalar '"' :: rest) = some (s.body.length + 1) := by
  rw [StringToken.body]
  induction s.pieces with
  | nil => rfl
  | cons piece pieces ih =>
    rw [List.flatMap_cons, List.append_assoc, literalRest?_piece, ih, Option.map_some,
      List.length_append]
    congr 1
    omega

/-- Cutting off the rest of a string token. -/
theorem cut_token (s : StringToken) (rest : Text) :
    (s.body ++ .scalar '"' :: rest).take (s.body.length + 1) = s.body ++ [.scalar '"'] ∧
      (s.body ++ .scalar '"' :: rest).drop (s.body.length + 1) = rest := by
  simp [List.take_append, List.drop_append]

/-! ## Tokens -/

/-- A token other than a string holds no quote and no slash, and a comma only if it is one. -/
theorem plain_or_string {t : Text} (isToken : IsToken t) :
    (∃ s : StringToken, t = s.text) ∨
      ∀ c ∈ t, c ≠ .scalar '"' ∧ c ≠ .scalar '/' ∧ (c = .scalar ',' → t = mark ',') := by
  cases isToken with
  | fixed listed =>
    right
    have each : ∀ t ∈ Json.fixedTokens, ∀ c ∈ t,
        c ≠ .scalar '"' ∧ c ≠ .scalar '/' ∧ (c = .scalar ',' → t = mark ',') := by decide
    exact each t listed
  | number n =>
    right
    intro c mem
    have each : ∀ d ∈ [CodePoint.scalar '"', .scalar '/', .scalar ','],
        d.isDigit 10 = false ∧ d ∉ Json.joints := by decide
    have differ {d : CodePoint} (mem' : d ∈ [CodePoint.scalar '"', .scalar '/', .scalar ',']) :
        c ≠ d := by
      rintro rfl
      rcases n.isDigit_or_joint mem with isDigit | joint
      · rw [(each c mem').1] at isDigit
        cases isDigit
      · exact (each c mem').2 joint
    exact ⟨differ (by decide), differ (by decide), fun same => absurd same (differ (by decide))⟩
  | string s => exact .inl ⟨s, rfl⟩

theorem isBlank_of_isDigit {c : CodePoint} (isDigit : c.isDigit 10 = true) :
    c.isBlank = false := by
  have each : ∀ v ∈ CodePoint.blanks, (CodePoint.ofNat? v).all (!·.isDigit 10) = true := by decide
  refine Bool.eq_false_iff.mpr fun isBlank => ?_
  have noDigit := each c.val (List.contains_iff_mem.mp isBlank)
  rw [CodePoint.ofNat?_val] at noDigit
  simp [isDigit] at noDigit

/-- No token starts with a blank, and none but the closing brackets starts with one of these. -/
theorem token_start {t : Text} (isToken : IsToken t) :
    ∃ c cs, t = c :: cs ∧ c.isBlank = false ∧
      (c = .scalar '}' ∨ c = .scalar ']' → t ∈ closers) := by
  cases isToken with
  | fixed listed =>
    have each : ∀ t ∈ Json.fixedTokens, t ≠ [] ∧ ∀ c ∈ t.head?,
        c.isBlank = false ∧ (c = .scalar '}' ∨ c = .scalar ']' → t ∈ closers) := by decide
    obtain ⟨filled, first⟩ := each t listed
    obtain ⟨c, cs, rfl⟩ := List.exists_cons_of_ne_nil filled
    exact ⟨c, cs, rfl, first c rfl⟩
  | number n =>
    obtain ⟨c, cs, starts, first⟩ := n.text_start
    have noCloser : ¬ (c = .scalar '}' ∨ c = .scalar ']') := by
      rintro (rfl | rfl) <;> revert first <;> decide
    refine ⟨c, cs, starts, ?_, fun closes => absurd closes noCloser⟩
    rcases first with isDigit | rfl
    · exact isBlank_of_isDigit isDigit
    · decide
  | string s => exact ⟨.scalar '"', _, rfl, by decide, fun closes => absurd closes (by decide)⟩

/-! ## Comments -/

theorem withoutComments_plain {t : Text} (plain : ∀ c ∈ t, c ≠ .scalar '"' ∧ c ≠ .scalar '/')
    (rest : Text) : withoutComments (t ++ rest) = t ++ withoutComments rest := by
  induction t with
  | nil => rfl
  | cons c t ih =>
    obtain ⟨⟨noQuote, noSlash⟩, others⟩ := List.forall_mem_cons.mp plain
    rw [List.cons_append, withoutComments, if_neg noQuote, if_neg noSlash, ih others,
      List.cons_append]

theorem withoutComments_token {t : Text} (isToken : IsToken t) (rest : Text) :
    withoutComments (t ++ rest) = t ++ withoutComments rest := by
  rcases plain_or_string isToken with ⟨s, rfl⟩ | plain
  · obtain ⟨taken, dropped⟩ := cut_token s rest
    rw [StringToken.text, List.cons_append, List.append_assoc, List.singleton_append,
      withoutComments, if_pos rfl, literalRest?_token, Option.getD_some]
    simp only [taken, dropped, List.cons_append]
  · exact withoutComments_plain (fun c mem => ⟨(plain c mem).1, (plain c mem).2.1⟩) rest

/-- A comment between stars ends at the first closing mark. -/
theorem blockRest?_append {body : Text}
    (inStars : Text.occursIn (Text.ofString "*/") body = false) (rest : Text) :
    blockRest? (body ++ .scalar '*' :: .scalar '/' :: rest) = some (body.length + 2) := by
  induction body with
  | nil => rfl
  | cons c body ih =>
    rw [Text.occursIn, Bool.or_eq_false_iff] at inStars
    obtain ⟨noMark, others⟩ := inStars
    rw [List.cons_append, blockRest?, ih others, Option.map_some, List.length_cons]
    -- A star that ends the body is followed by a star, and any other by what is no slash.
    intro r isStar starts
    cases body with
    | nil => cases starts
    | cons d body =>
      rw [isStar, (List.cons.inj starts).1] at noMark
      cases noMark

theorem withoutComments_comment {t : Text} {length : Nat}
    (isComment : commentRest? t = some length) :
    withoutComments (.scalar '/' :: t) = withoutComments (t.drop length) := by
  rw [withoutComments, if_neg (by decide), if_pos rfl, isComment]

theorem withoutComments_block {body : Text}
    (inStars : Text.occursIn (Text.ofString "*/") body = false) (rest : Text) :
    withoutComments (.scalar '/' :: .scalar '*' :: (body ++ .scalar '*' :: .scalar '/' :: rest)) =
      withoutComments rest := by
  rw [withoutComments_comment (by rw [commentRest?, blockRest?_append inStars, Option.map_some])]
  simp [List.drop_append, List.drop_eq_nil_of_le (Nat.le_add_right body.length 2)]

/-- A comment on a line ends with the line or with the text. -/
theorem withoutComments_line {body rest : Text} (inLine : .scalar '\n' ∉ body)
    (ends : ∀ c ∈ rest.head?, c = .scalar '\n') :
    withoutComments (.scalar '/' :: .scalar '/' :: (body ++ rest)) = withoutComments rest := by
  have each : ∀ c ∈ body, decide (c ≠ .scalar '\n') = true := by
    intro c mem
    exact decide_eq_true fun same => inLine (same ▸ mem)
  have stops : rest.takeWhile (· ≠ .scalar '\n') = [] := by
    cases rest with
    | nil => rfl
    | cons c rest => simp [ends c rfl]
  rw [withoutComments_comment rfl, List.takeWhile_append_of_pos each, stops, List.append_nil,
    Nat.add_comm, List.drop_succ_cons, List.drop_left]

theorem not_special_of_isSpace {c : CodePoint} (isSpace : Json.Reader.isSpace c = true) :
    c ≠ .scalar '"' ∧ c ≠ .scalar '/' ∧ c ≠ .scalar ',' := by
  refine ⟨?_, ?_, ?_⟩ <;> rintro rfl <;> cases isSpace

/-- Of a filler, only white space is left. -/
theorem withoutComments_filler {g : Text} (isFiller : Filler g) :
    ∃ spaces, IsSpaces spaces ∧ ∀ rest, withoutComments (g ++ rest) =
      spaces ++ withoutComments rest := by
  induction isFiller with
  | nil => exact ⟨[], fun c mem => absurd mem List.not_mem_nil, fun rest => rfl⟩
  | @space c t isSpace more ih =>
    obtain ⟨spaces, blank, left⟩ := ih
    obtain ⟨noQuote, noSlash, -⟩ := not_special_of_isSpace isSpace
    refine ⟨c :: spaces, List.forall_mem_cons.mpr ⟨isSpace, blank⟩, fun rest => ?_⟩
    rw [List.cons_append, withoutComments, if_neg noQuote, if_neg noSlash, left, List.cons_append]
  | @line body t inLine more ih =>
    obtain ⟨spaces, blank, left⟩ := ih
    refine ⟨.scalar '\n' :: spaces, List.forall_mem_cons.mpr ⟨rfl, blank⟩, fun rest => ?_⟩
    have ends : ∀ c ∈ (.scalar '\n' :: (t ++ rest) : Text).head?, c = .scalar '\n' :=
      fun c mem => (Option.some.inj mem).symm
    rw [List.cons_append, List.cons_append, List.append_assoc, List.cons_append,
      withoutComments_line inLine ends, withoutComments, if_neg (by decide), if_neg (by decide),
      left, List.cons_append]
  | @block body t inStars more ih =>
    obtain ⟨spaces, blank, left⟩ := ih
    refine ⟨spaces, blank, fun rest => ?_⟩
    rw [List.cons_append, List.cons_append, List.append_assoc, List.cons_append, List.cons_append,
      withoutComments_block inStars, left]

theorem withoutComments_lastFiller {g : Text} (isLast : LastFiller g) :
    IsSpaces (withoutComments g) := by
  have nothing : withoutComments [] = [] := by rw [withoutComments]
  cases isLast with
  | filler isFiller =>
    obtain ⟨spaces, blank, left⟩ := withoutComments_filler isFiller
    rwa [← List.append_nil g, left, nothing, List.append_nil]
  | @line t body isFiller inLine =>
    obtain ⟨spaces, blank, left⟩ := withoutComments_filler isFiller
    have comment : withoutComments (.scalar '/' :: .scalar '/' :: (body ++ [])) =
        withoutComments [] := withoutComments_line inLine fun c mem => absurd mem (by simp)
    rw [List.append_nil] at comment
    rwa [left, comment, nothing, List.append_nil]

/-- **Without comments**, decorated tokens have white space around them. -/
theorem decorated_withoutComments {tokens : List Text} {text : Text}
    (areTokens : ∀ t ∈ tokens, IsToken t) (decorated : Decorated Filler LastFiller tokens text) :
    Decorated IsSpaces IsSpaces tokens (withoutComments text) := by
  induction decorated with
  | done isLast => exact .done (withoutComments_lastFiller isLast)
  | @token g t rest tokens isFiller more ih =>
    obtain ⟨isToken, others⟩ := List.forall_mem_cons.mp areTokens
    obtain ⟨spaces, blank, left⟩ := withoutComments_filler isFiller
    rw [left, withoutComments_token isToken]
    exact .token blank (ih others)
  | @comma g h t rest tokens isFiller isFiller' closes more ih =>
    obtain ⟨isToken, others⟩ := List.forall_mem_cons.mp areTokens
    obtain ⟨spaces, blank, left⟩ := withoutComments_filler isFiller
    obtain ⟨spaces', blank', left'⟩ := withoutComments_filler isFiller'
    rw [left, withoutComments, if_neg (by decide), if_neg (by decide), left',
      withoutComments_token isToken]
    exact .comma blank blank' closes (ih others)

/-! ## Commas -/

theorem withoutTrailingCommas_plain {t : Text}
    (plain : ∀ c ∈ t, c ≠ .scalar '"' ∧ c ≠ .scalar ',') (rest : Text) :
    withoutTrailingCommas (t ++ rest) = t ++ withoutTrailingCommas rest := by
  induction t with
  | nil => rfl
  | cons c t ih =>
    obtain ⟨⟨noQuote, noComma⟩, others⟩ := List.forall_mem_cons.mp plain
    rw [List.cons_append, withoutTrailingCommas, if_neg noQuote, if_neg noComma, ih others,
      List.cons_append]

theorem withoutTrailingCommas_token {t : Text} (isToken : IsToken t) (noComma : t ≠ mark ',')
    (rest : Text) : withoutTrailingCommas (t ++ rest) = t ++ withoutTrailingCommas rest := by
  rcases plain_or_string isToken with ⟨s, rfl⟩ | plain
  · obtain ⟨taken, dropped⟩ := cut_token s rest
    rw [StringToken.text, List.cons_append, List.append_assoc, List.singleton_append,
      withoutTrailingCommas, if_pos rfl, literalRest?_token, Option.getD_some]
    simp only [taken, dropped, List.cons_append]
  · refine withoutTrailingCommas_plain (fun c mem => ⟨(plain c mem).1, fun isComma => ?_⟩) rest
    exact noComma ((plain c mem).2.2 isComma)

theorem withoutTrailingCommas_spaces {spaces : Text} (blank : IsSpaces spaces) (rest : Text) :
    withoutTrailingCommas (spaces ++ rest) = spaces ++ withoutTrailingCommas rest := by
  refine withoutTrailingCommas_plain (fun c mem => ?_) rest
  obtain ⟨noQuote, -, noComma⟩ := not_special_of_isSpace (blank c mem)
  exact ⟨noQuote, noComma⟩

theorem isBlank_of_isSpace {c : CodePoint} (isSpace : Json.Reader.isSpace c = true) :
    c.isBlank = true := by
  have each : ∀ v ∈ [0x20, 0x9, 0xA, 0xD], CodePoint.blanks.contains v = true := by decide
  exact each c.val (List.contains_iff_mem.mp isSpace)

theorem takeWhile_spaces {spaces rest : Text} (blank : IsSpaces spaces)
    (solid : ∀ c ∈ rest.head?, c.isBlank = false) :
    (spaces ++ rest).takeWhile CodePoint.isBlank = spaces := by
  rw [List.takeWhile_append_of_pos fun c mem => isBlank_of_isSpace (blank c mem)]
  cases rest with
  | nil => simp
  | cons c rest => simp [solid c rfl]

/-- A closing bracket after white space is found, and nothing else is. -/
theorem closing?_spaces {spaces rest : Text} (blank : IsSpaces spaces)
    (solid : ∀ c ∈ rest.head?, c.isBlank = false) :
    closing? (spaces ++ rest) =
      if rest.head? = some (.scalar '}') ∨ rest.head? = some (.scalar ']') then
        some (spaces.length + 1)
      else none := by
  unfold closing?
  simp only [takeWhile_spaces blank solid, List.drop_left]
  split
  · simp
  · simp
  · rename_i noBrace noBracket
    rw [if_neg]
    cases rest with
    | nil => simp
    | cons c rest =>
      rintro (isBrace | isBracket)
      · exact noBrace rest (by rw [Option.some.inj isBrace])
      · exact noBracket rest (by rw [Option.some.inj isBracket])

/-- Decorated tokens do not start with a closing bracket unless the first token is one. -/
theorem closing?_decorated {tokens : List Text} {text : Text}
    (areTokens : ∀ t ∈ tokens, IsToken t) (noCloser : ∀ t ∈ tokens.head?, t ∉ closers)
    (decorated : Decorated IsSpaces IsSpaces tokens text) : closing? text = none := by
  cases decorated with
  | done blank =>
    have solid : ∀ c ∈ ([] : Text).head?, c.isBlank = false := fun c mem => absurd mem (by simp)
    rw [← List.append_nil text, closing?_spaces blank solid]
    simp
  | @token g t rest tokens blank more =>
    obtain ⟨c, cs, rfl, solid, closes⟩ := token_start (areTokens t List.mem_cons_self)
    rw [closing?_spaces blank fun d mem => by cases Option.some.inj mem; exact solid, if_neg]
    rintro (isBrace | isBracket)
    · exact noCloser _ rfl (closes (.inl (Option.some.inj isBrace)))
    · exact noCloser _ rfl (closes (.inr (Option.some.inj isBracket)))
  | @comma g h t rest tokens blank blank' closes more => exact absurd closes (noCloser t rfl)

/-- No comma stands right before a closing bracket. -/
def Regular (tokens : List Text) : Prop :=
  tokens.IsChain fun t u => t = mark ',' → u ∉ closers

/-- **Without commas** before closing brackets, regular tokens are laid out. -/
theorem spaced_withoutTrailingCommas {tokens : List Text} {text : Text}
    (areTokens : ∀ t ∈ tokens, IsToken t) (regular : Regular tokens)
    (decorated : Decorated IsSpaces IsSpaces tokens text) :
    Spaced tokens (withoutTrailingCommas text) := by
  induction decorated with
  | @done g blank =>
    have nothing : withoutTrailingCommas [] = [] := by rw [withoutTrailingCommas]
    rw [← List.append_nil g, withoutTrailingCommas_spaces blank, nothing, List.append_nil]
    exact .done blank
  | @token g t rest tokens blank more ih =>
    obtain ⟨isToken, others⟩ := List.forall_mem_cons.mp areTokens
    obtain ⟨noCloser, regular⟩ := List.isChain_cons.mp regular
    have kept : withoutTrailingCommas (t ++ rest) = t ++ withoutTrailingCommas rest := by
      -- A comma that is a token is kept, because the next token is no closing bracket.
      by_cases isComma : t = mark ','
      · have goesOn := closing?_decorated others (fun u mem => noCloser u mem isComma) more
        rw [isComma, mark, List.singleton_append, withoutTrailingCommas, if_neg (by decide),
          if_pos rfl, goesOn]
        rfl
      · exact withoutTrailingCommas_token isToken isComma rest
    rw [withoutTrailingCommas_spaces blank, kept]
    exact .token blank (ih others regular)
  | @comma g h t rest tokens blank blank' closes more ih =>
    obtain ⟨isToken, others⟩ := List.forall_mem_cons.mp areTokens
    have regularOthers : Regular tokens := (List.isChain_cons.mp regular).2
    obtain ⟨c, rfl, isCloser, solid⟩ : ∃ c : CodePoint, t = [c] ∧
        (some c = some (.scalar '}') ∨ some c = some (.scalar ']')) ∧ c.isBlank = false := by
      rcases List.mem_cons.mp closes with rfl | isBrace
      · exact ⟨_, rfl, .inr rfl, by decide⟩
      · exact ⟨_, List.mem_singleton.mp isBrace, .inl rfl, by decide⟩
    have found : closing? (h ++ c :: rest) = some (h.length + 1) := by
      rw [closing?_spaces blank' fun d mem => by cases Option.some.inj mem; exact solid]
      exact if_pos isCloser
    rw [List.singleton_append, withoutTrailingCommas_spaces blank, withoutTrailingCommas,
      if_neg (by decide), if_pos rfl, found]
    -- The white space on both sides of the comma is left, and with it the bracket.
    have taken : (h ++ c :: rest).take (h.length + 1) = h ++ [c] := by simp [List.take_append]
    have dropped : (h ++ c :: rest).drop (h.length + 1) = rest := by simp [List.drop_append]
    simp only [taken, dropped, ← List.append_assoc]
    rw [List.append_assoc]
    refine .token (fun d mem => ?_) (ih others regularOthers)
    exact (List.mem_append.mp mem).elim (blank d) (blank' d)

/-! ## Documents -/

theorem regular_cons {t : Text} (noComma : t ≠ mark ',') {tokens : List Text}
    (regular : Regular tokens) : Regular (t :: tokens) :=
  List.isChain_cons.mpr ⟨fun _ _ isComma => absurd isComma noComma, regular⟩

theorem regular_separated {parts : List (List Text)} {tokens : List Text}
    (each : ∀ part ∈ parts, ∀ tokens, Regular tokens → Regular (part ++ tokens))
    (starts : ∀ part ∈ parts, ∃ t more, part = t :: more ∧ t ∉ closers) (regular : Regular tokens) :
    Regular (Json.separated parts ++ tokens) := by
  induction parts with
  | nil => exact regular
  | cons p parts ih =>
    obtain ⟨first, others⟩ := List.forall_mem_cons.mp each
    have startsOthers := (List.forall_mem_cons.mp starts).2
    cases parts with
    | nil => exact first tokens regular
    | cons q parts =>
      rw [Json.separated_cons_cons, List.append_assoc]
      obtain ⟨t, more, rfl, noCloser⟩ := startsOthers q List.mem_cons_self
      refine first _ (List.isChain_cons.mpr ⟨fun u mem _ => ?_, ih others startsOthers⟩)
      obtain ⟨rest, isFirst⟩ := Json.separated_start t more parts
      rw [isFirst] at mem
      cases Option.some.inj mem
      exact noCloser

theorem noCloser_of_tokens (d : Document) : ∃ t more, d.tokens = t :: more ∧ t ∉ closers := by
  obtain ⟨c, cs, more, starts, other⟩ := d.tokens_start
  refine ⟨c :: cs, more, starts, fun closes => ?_⟩
  have each : ∀ t ∈ closers, ∀ c ∈ t.head?, c ∈ Json.Reader.enders := by decide
  exact other (each _ closes c rfl)

/-- In the tokens of a document, no comma stands right before a closing bracket. -/
theorem regular_tokens (d : Document) {tokens : List Text} (regular : Regular tokens) :
    Regular (d.tokens ++ tokens) := by
  induction d generalizing tokens with
  | null => exact regular_cons (by decide) regular
  | bool b => exact regular_cons (by cases b <;> decide) regular
  | number n =>
    refine regular_cons (fun isComma => ?_) regular
    obtain ⟨c, cs, starts, first⟩ := n.text_start
    cases starts.symm.trans isComma
    revert first
    decide
  | string s => exact regular_cons (fun isComma => by cases isComma) regular
  | arr items ih =>
    rw [Document.tokens, Document.itemTokens_eq_map, List.cons_append, List.append_assoc]
    refine regular_cons (by decide) (regular_separated ?_ ?_ (regular_cons (by decide) regular))
    · intro part isPart tokens regular
      obtain ⟨item, isItem, rfl⟩ := List.mem_map.mp isPart
      exact ih item isItem regular
    · intro part isPart
      obtain ⟨item, -, rfl⟩ := List.mem_map.mp isPart
      exact noCloser_of_tokens item
  | obj members ih =>
    rw [Document.tokens, Document.memberTokens_eq_map, List.cons_append, List.append_assoc]
    have noComma (key : StringToken) : key.text ≠ mark ',' := fun isComma => by cases isComma
    have noQuote : ∀ t ∈ closers, t.head? ≠ some (.scalar '"') := by decide
    refine regular_cons (by decide) (regular_separated ?_ ?_ (regular_cons (by decide) regular))
    · intro part isPart tokens regular
      obtain ⟨member, isMember, rfl⟩ := List.mem_map.mp isPart
      exact regular_cons (noComma member.1) (regular_cons (by decide) (ih member isMember regular))
    · intro part isPart
      obtain ⟨member, -, rfl⟩ := List.mem_map.mp isPart
      exact ⟨member.1.text, _, rfl, fun closes => noQuote _ closes rfl⟩

/-- **Cleaning a decorated document** leaves its tokens as they were, in order and with white space
only around them. What is left is read as the tokens alone are, and as the value of the document
unless an integer in it is too long or an array or object in it stands too deep. -/
theorem clean_decorated {d : Document} {text : Text}
    (decorated : Decorated Filler LastFiller d.tokens text) :
    Spaced d.tokens (clean text) ∧
      Json.parse (clean text) = Json.parse d.tokens.flatten ∧
      (d.Fits Json.Reader.depthLimit → Json.parse (clean text) = .ok d.value) := by
  have areTokens : ∀ t ∈ d.tokens, IsToken t := fun t mem => d.isToken_of_mem mem
  have regular : Regular d.tokens := by
    have nothing : Regular [] := .nil
    simpa using regular_tokens d nothing
  have laid : Spaced d.tokens (clean text) :=
    spaced_withoutTrailingCommas areTokens regular (decorated_withoutComments areTokens decorated)
  refine ⟨laid, ?_, fun fits => ?_⟩
  · rw [Json.parse_spaced laid, Json.parse_spaced (Json.spaced_flatten d.tokens)]
  · rw [Json.parse_spaced laid, Document.read_of_fits fits]

/-- The law for an object whose only key looks like a comment, with a comma after its only item, a
comma after its only member, a quote in a comment and a comment that ends with the text. -/
theorem clean_decorated_everywhere :
    let key : StringToken := ⟨[.raw '/' (by decide) (by decide), .raw '/' (by decide) (by decide),
      .raw ',' (by decide) (by decide), .raw ']' (by decide) (by decide)]⟩
    let one : NumberToken :=
      { negative := false, whole := "1", fraction := none, exponent := none,
        isWhole := ⟨by decide, by decide⟩, noZero := by decide, isFraction := by simp }
    let d : Document := .obj [(key, .arr [.number one])]
    let text : Text := "\x7b // \"\n\"//,]\":[1 ,/* ] */],\x7d// \x7d"
    Decorated Filler LastFiller d.tokens text ∧ d.Fits Json.Reader.depthLimit ∧
      clean text = "\x7b \n\"//,]\":[1 ]\x7d" ∧
      Json.parse (clean text) = .ok (.obj [("//,]", .arr [.int 1])]) := by
  intro key one d text
  have none : Filler [] := .nil
  have space : Filler " " := .space rfl .nil
  have quote : Filler " // \"\n" :=
    .space rfl (.line (show .scalar '\n' ∉ Text.ofString " \"" by decide) .nil)
  have bracket : Filler "/* ] */" :=
    .block (show Text.occursIn (Text.ofString "*/") (Text.ofString " ] ") = false by decide) .nil
  have brace : LastFiller "// \x7d" :=
    .line .nil (show .scalar '\n' ∉ Text.ofString " \x7d" by decide)
  have decorated : Decorated Filler LastFiller d.tokens text := by
    have afterMember := Decorated.comma none none (show mark '}' ∈ closers by decide) (.done brace)
    have afterItem := Decorated.comma space bracket (show mark ']' ∈ closers by decide) afterMember
    have item := Decorated.token (t := one.text) none afterItem
    have items := Decorated.token (t := mark '[') none item
    have member := Decorated.token (t := key.text) quote (.token (t := mark ':') none items)
    exact Decorated.token (t := mark '{') none member
  have fits : d.Fits Json.Reader.depthLimit := by
    show Document.Fits (9993 + 1 + 1) d
    refine .obj fun m isMember => ?_
    cases List.mem_singleton.mp isMember
    refine .arr fun item isItem => ?_
    cases List.mem_singleton.mp isItem
    exact .number _ (by decide)
  refine ⟨decorated, fits, by decide +kernel, ?_⟩
  rw [(clean_decorated decorated).2.2 fits]
  rfl

end Tsconfig

end JsxOrigin
