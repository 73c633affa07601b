import LodeDB.Lib.Matching
import LodeDB.Text.Chunk

/-!
# The tokenizer and its pattern

A token is a word of letters and digits, followed by any number of words that one separator each joins
to it. The scanner looks one character ahead at a separator. It finds exactly the leftmost maximal
matches, and finds the same tokens again once they are joined by spaces.
-/

namespace LodeDB.Text

open Matching

/-- One or more letters or digits. -/
def words : Set (List Char) := { word | word ≠ [] ∧ ∀ c ∈ word, isAsciiTokenChar c = true }

/-- The token pattern: a word, then any number of groups of a separator and a word. -/
inductive tokens : Set (List Char)
  | word {word : List Char} (hword : word ∈ words) : tokens word
  | group {token word : List Char} {separator : Char} (htoken : tokens token)
      (hseparator : isSeparator separator = true) (hword : word ∈ words) : tokens (token ++ separator :: word)

variable {c separator : Char} {token word rest current text : List Char}

theorem words_append (h : word ∈ words) (hc : isAsciiTokenChar c = true) : word ++ [c] ∈ words := by
  refine ⟨by simp, fun other hother => ?_⟩
  rcases List.mem_append.mp hother with hother | hother
  · exact h.2 other hother
  · exact List.mem_singleton.mp hother ▸ hc

theorem singleton_mem_words (hc : isAsciiTokenChar c = true) : [c] ∈ words := ⟨by simp, by simpa using hc⟩

/-- A token grows by a letter or digit. -/
theorem tokens_append (h : token ∈ tokens) (hc : isAsciiTokenChar c = true) : token ++ [c] ∈ tokens := by
  cases h with
  | word hword => exact .word (words_append hword hc)
  | group htoken hseparator hword =>
    rw [List.append_assoc]
    exact .group htoken hseparator (words_append hword hc)

/-- A separator within a token has a letter or digit after it. -/
def Continues : List Char → Prop
  | [] => False
  | c :: rest => isAsciiTokenChar c = true ∨ isSeparator c = true ∧ rest.head?.any isAsciiTokenChar = true

theorem continues_append (h : Continues text) (more : List Char) : Continues (text ++ more) := by
  cases text with
  | nil => exact h.elim
  | cons c rest =>
    refine h.imp_right (And.imp_right fun hnext => ?_)
    cases rest with
    | nil => cases hnext
    | cons => exact hnext

theorem continues_word (h : word ∈ words) (hsuffix : rest <:+ word) (hrest : rest ≠ []) : Continues rest := by
  cases rest with
  | nil => exact absurd rfl hrest
  | cons c rest => exact .inl (h.2 c (hsuffix.subset List.mem_cons_self))

theorem continues_group (hseparator : isSeparator separator = true) (h : word ∈ words) : Continues (separator :: word) := by
  cases word with
  | nil => exact absurd rfl h.1
  | cons c word => exact .inr ⟨hseparator, h.2 c List.mem_cons_self⟩

/-- What is left of a token at any point continues it. -/
theorem continues_of_tokens {before : List Char} (h : token ∈ tokens) (hsplit : before ++ rest = token)
    (hrest : rest ≠ []) : Continues rest := by
  induction h generalizing before rest with
  | word hword => exact continues_word hword ⟨before, hsplit⟩ hrest
  | group htoken hseparator hword ih =>
    rcases List.append_eq_append_iff.mp hsplit with ⟨middle, rfl, rfl⟩ | ⟨middle, rfl, hmiddle⟩
    · cases middle with
      | nil => exact continues_group hseparator hword
      | cons c middle => exact continues_append (ih rfl (by simp)) _
    · cases middle with
      | nil =>
        rw [List.nil_append] at hmiddle
        exact hmiddle ▸ continues_group hseparator hword
      | cons c middle => exact continues_word hword ⟨middle, (List.cons.inj hmiddle).2.symm⟩ hrest

/-- No token starts with another character than a letter or digit. -/
theorem head?_of_tokens (h : token ∈ tokens) : token.head?.any isAsciiTokenChar = true := by
  induction h with
  | @word word hword =>
    cases word with
    | nil => exact absurd rfl hword.1
    | cons c word => exact hword.2 c List.mem_cons_self
  | @group token _ _ _ _ _ ih =>
    cases token with
    | nil => cases ih
    | cons => exact ih

theorem nil_notMem_tokens : [] ∉ tokens := fun h => Bool.noConfusion (head?_of_tokens h)

theorem isAsciiTokenChar_of_tokens (h : token ∈ tokens) (hhead : token <+: c :: rest) : isAsciiTokenChar c = true := by
  have hfirst := head?_of_tokens h
  cases token with
  | nil => cases hfirst
  | cons d token =>
    obtain ⟨rfl, -⟩ := List.cons_prefix_cons.mp hhead
    exact hfirst

/-- A token that the text does not continue is the longest one. -/
theorem length_le_of_not_continues (hrest : ¬ Continues rest) : ∀ longer ∈ tokens, longer <+: token ++ rest →
    longer.length ≤ token.length := by
  intro longer hlonger hstarts
  by_contra hlength
  obtain ⟨more, rfl⟩ := List.prefix_of_prefix_length_le (List.prefix_append token rest) hstarts (by omega)
  obtain ⟨after, hafter⟩ := (List.prefix_append_right_inj token).mp hstarts
  refine hrest (hafter ▸ continues_append (continues_of_tokens hlonger rfl ?_) after)
  rintro rfl
  simp at hlength

/-- What the scanner has read of a token: all so far, or that and a separator. -/
def Reading (current text : List Char) : Prop :=
  current ∈ tokens ∨ ∃ token ∈ tokens, ∃ separator, isSeparator separator = true ∧ current = token ++ [separator] ∧
    text.head?.any isAsciiTokenChar = true

theorem Reading.letter (h : Reading current (c :: text)) (hc : isAsciiTokenChar c = true) : current ++ [c] ∈ tokens := by
  rcases h with htoken | ⟨token, htoken, separator, hseparator, rfl, -⟩
  · exact tokens_append htoken hc
  · rw [List.append_assoc]
    exact .group htoken hseparator (singleton_mem_words hc)

/-- The matches the scanner finds from the start of a text, and within a token. -/
theorem findAll_tokenizeChars (text : List Char) :
    FindAll tokens text ((tokenizeChars text []).map String.toList) ∧
      ∀ current, Reading current text → ∃ more rest, text = more ++ rest ∧ current ++ more ∈ tokens ∧ ¬ Continues rest ∧
        tokenizeChars text current = String.ofList (current ++ more) :: tokenizeChars rest [] ∧
        FindAll tokens rest ((tokenizeChars rest []).map String.toList) := by
  induction text with
  | nil =>
    refine ⟨.nil, fun current hreading => ?_⟩
    have hcurrent : current ∈ tokens := hreading.resolve_right (by rintro ⟨_, _, _, _, _, ⟨⟩⟩)
    have hne : current ≠ [] := fun hnil => nil_notMem_tokens (hnil ▸ hcurrent)
    refine ⟨[], [], rfl, by rwa [List.append_nil], id, ?_, .nil⟩
    rw [tokenizeChars, if_neg hne, List.append_nil]
    rfl
  | cons c text ih =>
    obtain ⟨hskipped, hwithin⟩ := ih
    by_cases hc : isAsciiTokenChar c = true
    · -- the letter starts a token, or goes on with one
      have hgrows : ∀ current, current ++ [c] ∈ tokens → ∃ more rest, c :: text = more ++ rest ∧
          current ++ more ∈ tokens ∧ ¬ Continues rest ∧
          tokenizeChars (c :: text) current = String.ofList (current ++ more) :: tokenizeChars rest [] ∧
          FindAll tokens rest ((tokenizeChars rest []).map String.toList) := by
        intro current hcurrent
        obtain ⟨more, rest, rfl, htoken, hends, hscan, hrest⟩ := hwithin (current ++ [c]) (.inl hcurrent)
        rw [List.append_assoc] at htoken hscan
        exact ⟨c :: more, rest, rfl, htoken, hends, by rw [tokenizeChars, if_pos hc, hscan]; rfl, hrest⟩
      refine ⟨?_, fun current hreading => hgrows current (hreading.letter hc)⟩
      have hletter : [] ++ [c] ∈ tokens := .word (singleton_mem_words hc)
      obtain ⟨more, rest, htext, htoken, hends, hscan, hrest⟩ := hgrows [] hletter
      rw [hscan, htext, List.map_cons, String.toList_ofList]
      exact .take htoken (length_le_of_not_continues hends) hrest
    · have hskip : tokenizeChars (c :: text) [] = tokenizeChars text [] := by simp [tokenizeChars, hc]
      have hfind : FindAll tokens (c :: text) ((tokenizeChars (c :: text) []).map String.toList) :=
        hskip ▸ .skip (fun word hword hstarts => hc (isAsciiTokenChar_of_tokens hword hstarts)) hskipped
      refine ⟨hfind, fun current hreading => ?_⟩
      have hcurrent : current ∈ tokens := hreading.resolve_right (by rintro ⟨_, _, _, _, _, hhead⟩; exact hc hhead)
      have hne : current ≠ [] := fun hnil => nil_notMem_tokens (hnil ▸ hcurrent)
      by_cases hseparator : isSeparator c = true ∧ text.head?.any isAsciiTokenChar = true
      · have hjoins : (isSeparator c && decide (current ≠ []) && text.head?.any isAsciiTokenChar) = true := by
          simp [hseparator, hne]
        obtain ⟨more, rest, rfl, htoken, hends, hscan, hrest⟩ :=
          hwithin (current ++ [c]) (.inr ⟨current, hcurrent, c, hseparator.1, rfl, hseparator.2⟩)
        rw [List.append_assoc] at htoken hscan
        refine ⟨c :: more, rest, rfl, htoken, hends, ?_, hrest⟩
        rw [tokenizeChars, if_neg hc, if_pos hjoins, hscan]
        rfl
      · refine ⟨[], c :: text, rfl, by rwa [List.append_nil], not_or.mpr ⟨hc, hseparator⟩, ?_, hfind⟩
        rw [tokenizeChars, if_neg hc, if_neg (by simp [hne]; simpa using hseparator), if_neg hne, hskip, List.append_nil]

/-- Tokens that are joined by spaces are the matches of what they make. -/
theorem findAll_intercalate (found : List (List Char)) (hfound : ∀ token ∈ found, token ∈ tokens) :
    FindAll tokens ([' '].intercalate found) found := by
  have hspace (rest : List Char) : ¬ Continues (' ' :: rest) := by simp [Continues, isAsciiTokenChar, isSeparator]
  induction found with
  | nil => exact .nil
  | cons token found ih =>
    have htoken := hfound token List.mem_cons_self
    have hrest := ih fun other hother => hfound other (List.mem_cons_of_mem _ hother)
    cases found with
    | nil =>
      have hlast : FindAll tokens (token ++ []) [token] := .take htoken (length_le_of_not_continues id) .nil
      simpa using hlast
    | cons next found =>
      rw [List.intercalate_cons_of_ne_nil (by simp), List.append_assoc]
      refine .take htoken (length_le_of_not_continues (hspace _)) (.skip (fun word hword hstarts => ?_) hrest)
      have hletter := isAsciiTokenChar_of_tokens hword hstarts
      simp [isAsciiTokenChar] at hletter

/-- The scanner finds the leftmost maximal matches. -/
theorem tokenizeChars_eq_iff (chars : List Char) (found : List String) :
    tokenizeChars chars [] = found ↔ FindAll tokens chars (found.map String.toList) := by
  have hscanned := (findAll_tokenizeChars chars).1
  constructor
  · rintro rfl
    exact hscanned
  · intro hfound
    exact List.map_injective_iff.mpr (fun _ _ => String.toList_inj.mp) (hscanned.unique nil_notMem_tokens hfound)

/-- **The tokens of a text are the leftmost maximal matches of the pattern in its lower-case form, and
joined by spaces they are found again.** -/
theorem tokenize_eq_iff_findAll (P : Primitives) (text : String) :
    (∀ found, tokenize P text = found ↔ if text = "" then found = []
      else FindAll tokens (P.toLowercase text).toList (found.map String.toList)) ∧
    tokenizeChars (" ".intercalate (tokenize P text)).toList [] = tokenize P text ∧
    (P.toLowercase (" ".intercalate (tokenize P text)) = " ".intercalate (tokenize P text) →
      tokenize P (" ".intercalate (tokenize P text)) = tokenize P text) := by
  have hfound (found : List String) : tokenize P text = found ↔ if text = "" then found = []
      else FindAll tokens (P.toLowercase text).toList (found.map String.toList) := by
    rw [tokenize]
    split
    · exact eq_comm
    · exact tokenizeChars_eq_iff _ found
  have htokens : ∀ token ∈ (tokenize P text).map String.toList, token ∈ tokens := by
    have hself := (hfound _).mp rfl
    split at hself
    · simp [hself]
    · exact hself.mem
  have hjoined : tokenizeChars (" ".intercalate (tokenize P text)).toList [] = tokenize P text := by
    rw [tokenizeChars_eq_iff, String.toList_intercalate]
    exact findAll_intercalate _ htokens
  refine ⟨hfound, hjoined, fun hlower => ?_⟩
  rw [tokenize, hlower]
  split
  · rename_i hempty
    rw [hempty] at hjoined
    exact hjoined
  · exact hjoined

end LodeDB.Text
