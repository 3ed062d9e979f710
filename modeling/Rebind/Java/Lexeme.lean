/-
Comments and literals of a source text, and the mask that blanks them.
-/
import Rebind.Text.Blank

namespace Rebind.Java

open Text

inductive Lexeme where
  | code (c : Char)
  | comment (body : Text)
  | literal (opening body closing : Text)
  deriving DecidableEq

def blanked (t : Text) : Text := t.map fun c => if c == '\n' then c else ' '

namespace Lexeme

/-- The lexeme as written. -/
def text : Lexeme → Text
  | code c => [c]
  | comment body => body
  | literal opening body closing => opening ++ body ++ closing

def masked : Lexeme → Text
  | code c => [c]
  | comment body => blanked body
  | literal opening body closing => opening ++ blanked body ++ closing

end Lexeme

/-- The inside of a literal that `q` closes, and the rest from the closing quote or the end of the
line on. A backslash takes the next character with it, a line break included. -/
def quotedBody (q : Char) : (t : Text) → Text × Text
  | [] => ([], [])
  | ['\\'] => (['\\'], [])
  | '\\' :: c :: t => let (body, rest) := quotedBody q t; ('\\' :: c :: body, rest)
  | c :: t =>
    if c == q || c == '\n' then ([], c :: t)
    else let (body, rest) := quotedBody q t; (c :: body, rest)

/-- Three quotes. -/
def blockQuote : Text := ['"', '"', '"']

/-- The lexeme that starts with `c`, and the rest. A block literal that is never closed keeps its
last three characters as if they closed it. -/
def lexemeAt : (c : Char) → (t : Text) → Lexeme × Text
  | '/', '/' :: t => (.comment ('/' :: '/' :: t.takeWhile (· != '\n')), t.dropWhile (· != '\n'))
  | '/', '*' :: t =>
    match cut? "*/" t with
    | some (body, rest) => (.comment ("/*" ++ body ++ "*/"), rest)
    | none => (.comment ("/*" ++ t), [])
  | '"', '"' :: '"' :: t =>
    match cut? blockQuote t with
    | some (body, rest) => (.literal blockQuote body blockQuote, rest)
    | none => (.literal blockQuote (t.take (t.length - 3)) (t.drop (t.length - 3)), [])
  | c, t =>
    if c == '"' || c == '\'' then
      let (body, rest) := quotedBody c t
      (.literal [c] body (rest.take 1), rest.drop 1)
    else (.code c, t)

theorem eq_append_of_after? {p t r : Text} (h : after? p t = some r) : t = p ++ r := by
  induction p generalizing t with
  | nil => simpa [after?] using h
  | cons a p ih =>
    cases t with
    | nil => simp [after?] at h
    | cons b t =>
      simp only [after?] at h
      split at h
      · rename_i hab
        simp [← ih h, (beq_iff_eq.1 hab)]
      · simp at h

theorem eq_append_of_cut? {p t b r : Text} (h : cut? p t = some (b, r)) : t = b ++ p ++ r := by
  induction t generalizing b r with
  | nil =>
    simp only [cut?] at h
    split at h
    · rename_i hp
      simp only [Option.some.injEq, Prod.mk.injEq] at h
      simp [← h.1, ← h.2, List.isEmpty_iff.1 hp]
    · simp at h
  | cons c t ih =>
    simp only [cut?] at h
    split at h
    · rename_i rest hrest
      simp only [Option.some.injEq, Prod.mk.injEq] at h
      simp [← h.1, ← h.2, eq_append_of_after? hrest]
    · obtain ⟨⟨b', r'⟩, h', he⟩ := Option.map_eq_some_iff.1 h
      simp only [Prod.mk.injEq] at he
      simp [← he.1, ← he.2, ih h']

theorem quotedBody_append (q : Char) (t : Text) :
    (quotedBody q t).1 ++ (quotedBody q t).2 = t := by
  fun_induction quotedBody q t <;> simp_all

theorem text_lexemeAt (c : Char) (t : Text) :
    (lexemeAt c t).1.text ++ (lexemeAt c t).2 = c :: t := by
  unfold lexemeAt
  split
  · simp [Lexeme.text, List.takeWhile_append_dropWhile]
  · split
    · rename_i h
      simp [Lexeme.text, eq_append_of_cut? h]
    · simp [Lexeme.text]
  · split
    · rename_i h
      simp [Lexeme.text, blockQuote, eq_append_of_cut? h]
    · simp [Lexeme.text, blockQuote]
  · split
    · have h := quotedBody_append c t
      simp only [Lexeme.text, List.append_assoc, List.take_append_drop, List.cons_append,
        List.nil_append, h]
    · simp [Lexeme.text]

theorem one_le_length_text_lexemeAt (c : Char) (t : Text) : 1 ≤ (lexemeAt c t).1.text.length := by
  unfold lexemeAt
  split
  · simp [Lexeme.text]
  · split <;> simp [Lexeme.text]
  · split <;> simp [Lexeme.text, blockQuote]
  · split <;> simp [Lexeme.text]

theorem length_lexemeAt_le (c : Char) (t : Text) : (lexemeAt c t).2.length ≤ t.length := by
  have h := congrArg List.length (text_lexemeAt c t)
  have h1 := one_le_length_text_lexemeAt c t
  simp only [List.length_append, List.length_cons] at h
  omega

/-- Cuts a text into single characters of code, whole comments and whole literals; `flatMap_text_lexemes` says that
nothing is lost. -/
def lexemes : (t : Text) → List Lexeme
  | [] => []
  | c :: t => (lexemeAt c t).1 :: lexemes (lexemeAt c t).2
termination_by t => t.length
decreasing_by
  have := length_lexemeAt_le c t
  simp only [List.length_cons]
  omega

theorem flatMap_text_lexemes (t : Text) : (lexemes t).flatMap Lexeme.text = t := by
  fun_induction lexemes t with
  | case1 => rfl
  | case2 c t ih => simp [ih, text_lexemeAt]

/-- Every lexeme is written back with its comments and the insides of its literals blanked, line breaks kept, so offsets
in the mask are offsets in the text. -/
def mask (t : Text) : Text := (lexemes t).flatMap Lexeme.masked

end Rebind.Java
