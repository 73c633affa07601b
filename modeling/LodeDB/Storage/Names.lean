import LodeDB.Core.Json
import LodeDB.Storage.Load

/-!
# The names of a generation's files

The files of an index lie in its generation directory. A base is named after its epoch and its store, and
the segments onto it lie in a directory named after the base. Bases and segments have different names.
-/

namespace LodeDB.Storage

open Journal

variable {kind other : StoreKind} {first second : ℕ} {indexKey : String}

/-- The key of a store in a commit body, and the extension of its files. -/
def StoreKind.key : StoreKind → String
  | .json => "json"
  | .tvim => "tvim"
  | .tvtext => "tvtext"
  | .tvlex => "tvlex"
  | .tvmv => "tvmv"
  | .tvann => "tvann"
  | .tvvf => "tvvf"

/-- The suffix of the directory beside a base. -/
def StoreKind.deltaDirSuffix (kind : StoreKind) : String := "." ++ kind.key ++ "-delta"

/-- The file name of a base. The original-precision sidecar counts epochs of its own. -/
def baseName (kind : StoreKind) (epoch : ℕ) : String :=
  (if kind = .tvvf then "vf" else "g") ++ toString epoch ++ "." ++ kind.key

theorem baseName_tvvf (epoch : ℕ) : baseName .tvvf epoch = "vf" ++ toString epoch ++ ".tvvf" := by
  simp [baseName, StoreKind.key, String.append_assoc]

theorem baseName_of_ne (hkind : kind ≠ .tvvf) (epoch : ℕ) :
    baseName kind epoch = "g" ++ toString epoch ++ "." ++ kind.key := by
  rw [baseName, if_neg hkind]

/-- The directory beside a base. -/
def deltaDir (kind : StoreKind) (epoch : ℕ) : String := baseName kind epoch ++ kind.deltaDirSuffix

/-- The generation directory of an index. -/
def generationDir (indexKey : String) : String := indexKey ++ ".gen"

/-- The path of a file below the persistence directory. -/
def filePath (indexKey : String) (kind : StoreKind) : Part → String
  | .base epoch => generationDir indexKey ++ "/" ++ baseName kind epoch
  | .manifest epoch => generationDir indexKey ++ "/" ++ deltaDir kind epoch ++ "/" ++ "manifest.json"
  | .segment epoch seq => generationDir indexKey ++ "/" ++ deltaDir kind epoch ++ "/" ++ segmentName kind seq

/-- The files a generation is made of. The cluster assignment has no segments. -/
def IsArtifact (kind : StoreKind) : Part → Prop
  | .base _ => True
  | .manifest _ => False
  | .segment _ _ => kind ≠ .tvann

/-! ### Different files have different names -/

theorem append_sep_inj {α : Type} {sep : α} {left right after beyond : List α} (hleft : sep ∉ left)
    (hright : sep ∉ right) (heq : left ++ sep :: after = right ++ sep :: beyond) : left = right ∧ after = beyond := by
  induction left generalizing right with
  | nil =>
    cases right with
    | nil => exact ⟨rfl, (List.cons.inj heq).2⟩
    | cons head tail => exact absurd (List.cons.inj heq).1 (by grind)
  | cons head tail ih =>
    cases right with
    | nil => exact absurd (List.cons.inj heq).1 (by grind)
    | cons other rest =>
      obtain ⟨hhead, htail⟩ := List.cons.inj heq
      obtain ⟨hsame, hafter⟩ := ih (by grind) (by grind) htail
      exact ⟨by rw [hhead, hsame], hafter⟩

theorem padded8_inj (h : padded8 first = padded8 second) : first = second := by
  have hvalue (n : ℕ) : Nat.ofDigitChars 10 (padded8 n).toList 0 = n := by
    rw [padded8, String.toList_append, String.toList_ofList, toString_toList, Nat.ofDigitChars_append,
      Nat.ofDigitChars_replicate_zero, Nat.mul_zero, Nat.ofDigitChars_ten_toDigits]
  rw [← hvalue first, h, hvalue]

theorem segmentName_inj (hkind : kind ≠ .tvann) (h : segmentName kind first = segmentName kind second) :
    first = second := by
  apply padded8_inj
  cases kind with
  | tvann => exact absurd rfl hkind
  | _ => simpa [segmentName] using h

theorem StoreKind.key_inj (h : kind.key = other.key) : kind = other := by
  revert h
  cases kind <;> cases other <;> decide

/-- What stands before the first dot of a file name: the epoch. -/
def stem (kind : StoreKind) (epoch : ℕ) : List Char :=
  (if kind = .tvvf then ['v', 'f'] else ['g']) ++ Nat.toDigits 10 epoch

theorem dot_notMem_toDigits (n : ℕ) : '.' ∉ Nat.toDigits 10 n := by
  intro hmem
  have := Nat.isDigit_of_mem_toDigits (by decide) (by decide) hmem
  revert this
  decide

theorem dot_notMem_stem (kind : StoreKind) (epoch : ℕ) : '.' ∉ stem kind epoch := by
  unfold stem
  rw [List.mem_append, not_or]
  exact ⟨by split_ifs <;> decide, dot_notMem_toDigits epoch⟩

theorem dot_notMem_key (kind : StoreKind) : '.' ∉ kind.key.toList := by
  cases kind <;> decide

theorem baseName_toList (kind : StoreKind) (epoch : ℕ) :
    (baseName kind epoch).toList = stem kind epoch ++ '.' :: kind.key.toList := by
  unfold baseName stem
  split_ifs <;> simp

theorem deltaDir_toList (kind : StoreKind) (epoch : ℕ) : (deltaDir kind epoch).toList =
    stem kind epoch ++ '.' :: (kind.key.toList ++ '.' :: (kind.key.toList ++ "-delta".toList)) := by
  rw [deltaDir, String.toList_append, baseName_toList, StoreKind.deltaDirSuffix]
  simp

theorem stem_inj (h : stem kind first = stem kind second) : first = second := by
  have hdigits := List.append_cancel_left h
  rw [← Nat.ofDigitChars_ten_toDigits (n := first), hdigits, Nat.ofDigitChars_ten_toDigits]

theorem manifestPath_inj {epoch next : ℕ}
    (h : filePath indexKey kind (.manifest epoch) = filePath indexKey other (.manifest next)) : kind = other := by
  have hchars := congrArg String.toList h
  simp only [filePath, String.toList_append, deltaDir_toList, List.append_assoc, List.append_cancel_left_eq,
    List.cons_append] at hchars
  obtain ⟨_, hrest⟩ := append_sep_inj (dot_notMem_stem _ _) (dot_notMem_stem _ _) hchars
  obtain ⟨hkey, _⟩ := append_sep_inj (dot_notMem_key _) (dot_notMem_key _) hrest
  exact StoreKind.key_inj (String.toList_inj.mp hkey)

theorem filePath_inj {part second : Part} (hpart : IsArtifact kind part) (hsec : IsArtifact other second)
    (h : filePath indexKey kind part = filePath indexKey other second) : kind = other ∧ part = second := by
  have hchars := congrArg String.toList h
  cases part with
  | manifest epoch => exact hpart.elim
  | base epoch =>
    cases second with
    | manifest next => exact hsec.elim
    | base next =>
      simp only [filePath, String.toList_append, baseName_toList, List.append_cancel_left_eq] at hchars
      obtain ⟨hstem, hkey⟩ := append_sep_inj (dot_notMem_stem _ _) (dot_notMem_stem _ _) hchars
      have hkind := StoreKind.key_inj (String.toList_inj.mp hkey)
      subst hkind
      exact ⟨rfl, by rw [stem_inj hstem]⟩
    | segment next seq =>
      simp only [filePath, String.toList_append, baseName_toList, deltaDir_toList, List.append_assoc,
        List.append_cancel_left_eq, List.cons_append] at hchars
      obtain ⟨_, hkey⟩ := append_sep_inj (dot_notMem_stem _ _) (dot_notMem_stem _ _) hchars
      exact absurd (hkey ▸ dot_notMem_key kind) (by simp)
  | segment epoch seq =>
    cases second with
    | manifest next => exact hsec.elim
    | base next =>
      simp only [filePath, String.toList_append, baseName_toList, deltaDir_toList, List.append_assoc,
        List.append_cancel_left_eq, List.cons_append] at hchars
      obtain ⟨_, hkey⟩ := append_sep_inj (dot_notMem_stem _ _) (dot_notMem_stem _ _) hchars
      exact absurd (hkey ▸ dot_notMem_key other) (by simp)
    | segment next number =>
      simp only [filePath, String.toList_append, deltaDir_toList, List.append_assoc,
        List.append_cancel_left_eq, List.cons_append] at hchars
      obtain ⟨hstem, hrest⟩ := append_sep_inj (dot_notMem_stem _ _) (dot_notMem_stem _ _) hchars
      obtain ⟨hkey, hname⟩ := append_sep_inj (dot_notMem_key _) (dot_notMem_key _) hrest
      have hkind := StoreKind.key_inj (String.toList_inj.mp hkey)
      subst hkind
      simp only [List.append_cancel_left_eq] at hname
      rw [stem_inj hstem, segmentName_inj hpart (String.toList_inj.mp hname)]
      exact ⟨rfl, rfl⟩

end LodeDB.Storage
