import LodeDB.Text.Hash

/-!
# Chunking, chunk ids and tokens
-/

namespace LodeDB.Text

/-- A string without its leading and trailing whitespace. -/
def trim (text : String) : List Char :=
  ((text.toList.dropWhile isWhitespace).reverse.dropWhile isWhitespace).reverse

/-- Cut a character sequence every `characterLimit` characters. -/
def chunkChars (characterLimit : ℕ) : List Char → List Char → List String
  | [], current => if current = [] then [] else [String.ofList current]
  | character :: rest, current =>
    if (current ++ [character]).length = characterLimit then
      String.ofList (current ++ [character]) :: chunkChars characterLimit rest []
    else chunkChars characterLimit rest (current ++ [character])

/-- Split text into non-empty chunks bounded by character count. -/
def chunkText (text : String) (characterLimit : ℕ) : Except CoreError (List String) :=
  if characterLimit = 0 then .error (invalid "character_limit must be positive")
  else .ok (chunkChars characterLimit (trim text) [])

/-- Cutting loses no character, and cuts at the limit only. -/
theorem chunkChars_spec {characterLimit : ℕ} (hlimit : 0 < characterLimit) (rest current : List Char)
    (hcur : current.length < characterLimit) :
    (chunkChars characterLimit rest current).flatMap String.toList = current ++ rest ∧
      (∀ chunk ∈ (chunkChars characterLimit rest current).dropLast, chunk.length = characterLimit) ∧
      ∀ chunk ∈ (chunkChars characterLimit rest current).getLast?, chunk ≠ "" ∧ chunk.length ≤ characterLimit := by
  induction rest generalizing current with
  | nil =>
    rw [chunkChars]
    split
    · rename_i hempty
      simp [hempty]
    · rename_i hsome
      simp [hsome, Nat.le_of_lt hcur]
  | cons character rest ih =>
    rw [chunkChars]
    split
    · rename_i hfull
      obtain ⟨hchars, hinner, hlast⟩ := ih [] hlimit
      have hlen : (String.ofList (current ++ [character])).length = characterLimit := by
        rw [String.length_ofList, hfull]
      cases hrest : chunkChars characterLimit rest [] with
      | nil => simp_all
      | cons next later =>
        rw [hrest] at hchars hinner hlast
        refine ⟨?_, ?_, hlast⟩
        · rw [List.flatMap_cons, hchars]
          simp
        · intro chunk hchunk
          rcases List.mem_cons.mp hchunk with rfl | hchunk
          · exact hlen
          · exact hinner chunk hchunk
    · rename_i hshort
      obtain ⟨hchars, hinner, hlast⟩ := ih (current ++ [character]) (by simp at hshort ⊢; omega)
      exact ⟨by simp [hchars], hinner, hlast⟩

/-- A number in decimal, zero-padded to four digits. -/
def padded4 (number : ℕ) : String :=
  String.ofList (List.replicate (4 - (toString number).length) '0') ++ toString number

/-- The stable chunk id of a document's chunk, from its normalized hash and occurrence. -/
def chunkIdForHash (documentId chunkHash : String) (occurrence : ℕ) : String :=
  documentId ++ ":" ++ String.ofList (chunkHash.toList.take 12) ++ ":" ++ padded4 occurrence

/-- An ASCII digit or lower-case letter. -/
def isAsciiTokenChar (c : Char) : Bool := ('0' ≤ c && c ≤ '9') || ('a' ≤ c && c ≤ 'z')

/-- A character that may join two parts of a token. -/
def isSeparator (c : Char) : Bool := c == '-' || c == '.' || c == '/'

/-- Scan lower-cased characters for tokens, with the token read so far. -/
def tokenizeChars : List Char → List Char → List String
  | [], current => if current = [] then [] else [String.ofList current]
  | c :: rest, current =>
    if isAsciiTokenChar c then tokenizeChars rest (current ++ [c])
    else if isSeparator c && current ≠ [] && rest.head?.any isAsciiTokenChar then
      tokenizeChars rest (current ++ [c])
    else if current = [] then tokenizeChars rest []
    else String.ofList current :: tokenizeChars rest []

/-- The lexical tokens of a text. -/
def tokenize (P : Primitives) (text : String) : List String :=
  if text = "" then [] else tokenizeChars (P.toLowercase text).toList []

end LodeDB.Text
