import Sarca.Lib.Utf8
import Sarca.Server.Services
import Sarca.Server.Undelete

/-!
# The condition on a prefix

`common/db/sql.rs` writes the question whether a column starts with a text as a range. `SQLite` compares the
bytes of the two texts, and these compare as the code points do (`utf8_lt_utf8`), so `StartsWithBytes` is the
`startsWith` of the other modules. The upper bound of the range is itself a text that continues the prefix:
the condition is that of a prefix but for the texts that go on with the last code point
(`startsWith_exact_iff`).
-/

namespace Sarca.Server
open Sarca.Lib

/-- `(column >= param AND column < param || char(1114111))` over the bytes of the texts, as `memcmp` compares
    them (Rust `sql::starts_with`). -/
def StartsWithBytes (column param : Path) : Prop :=
  ¬utf8 column < utf8 param ∧ utf8 column < utf8 param ++ utf8 [maxChar]

instance StartsWithBytes.decidable (column param : Path) : Decidable (StartsWithBytes column param) :=
  inferInstanceAs (Decidable (_ ∧ _))

lemma pathLt_iff {p q : Path} : pathLt p q = true ↔ utf8 p < utf8 q := by
  unfold pathLt
  rw [List.lex_eq_true_iff_lt, utf8_lt_utf8]

lemma startsWith_iff_bytes {column param : Path} :
    startsWith column param = true ↔ StartsWithBytes column param := by
  unfold startsWith StartsWithBytes
  rw [← utf8_append, ← pathLt_iff, ← pathLt_iff, Bool.and_eq_true, Bool.not_eq_true', Bool.not_eq_true]

lemma continues_iff {column param : Path} :
    param ++ [maxChar] <+: column ↔ param <+: column ∧ startsWith column param = false := by
  constructor
  · intro h
    obtain ⟨rest, rfl⟩ := h
    refine ⟨⟨maxChar :: rest, by simp⟩, ?_⟩
    rw [List.append_assoc, ← Bool.not_eq_true, startsWith_append]
    simp
  · rintro ⟨⟨rest, rfl⟩, hout⟩
    rw [← Bool.not_eq_true, startsWith_append, not_not] at hout
    cases rest with
    | nil => cases hout
    | cons c rest =>
      obtain rfl : c = maxChar := Option.some.inj hout
      exact ⟨rest, by simp⟩

lemma startsWith_iff_begins {column param : Path} :
    (startsWith column param = true ↔ param <+: column) ↔ ¬param ++ [maxChar] <+: column := by
  rw [continues_iff, ← Bool.not_eq_true]
  have hbegins : startsWith column param = true → param <+: column := prefix_of_startsWith
  tauto

variable {db : Db} {storageId : Uuid} {folder : Path}

lemma mem_listLiveUnder {r : FileRow} : r ∈ db.listLiveUnder storageId folder ↔
    r ∈ db.files ∧ r.storageId = storageId ∧ r.Live ∧ startsWith r.path folder = true := by
  unfold Db.listLiveUnder
  rw [List.mem_insertionSort, List.mem_filter, decide_eq_true_eq]

lemma listLiveUnder_exact_iff :
    (∀ r, r ∈ db.listLiveUnder storageId folder ↔
      r ∈ db.files ∧ r.storageId = storageId ∧ r.Live ∧ folder <+: r.path) ↔
    ∀ r ∈ db.files, r.storageId = storageId → r.Live → ¬folder ++ [maxChar] <+: r.path := by
  simp only [mem_listLiveUnder]
  constructor
  · intro h r hr hs hl
    refine startsWith_iff_begins.mp ⟨prefix_of_startsWith, fun hbegins => ?_⟩
    exact ((h r).mpr ⟨hr, hs, hl, hbegins⟩).2.2.2
  · intro h r
    constructor
    · rintro ⟨hr, hs, hl, hin⟩
      exact ⟨hr, hs, hl, prefix_of_startsWith hin⟩
    · rintro ⟨hr, hs, hl, hbegins⟩
      exact ⟨hr, hs, hl, (startsWith_iff_begins.mpr (h r hr hs hl)).mpr hbegins⟩

lemma atOrUnder_exact_iff {path : Path} {p : FileRow → Bool} {r : FileRow} (hfolder : folder ≠ []) :
    (Db.atOrUnder storageId path folder p r = true ↔
      r.storageId = storageId ∧ p r = true ∧ folder <+: r.path) ↔
    (r.storageId = storageId → p r = true → ¬folder ++ [maxChar] <+: r.path) := by
  unfold Db.atOrUnder
  rw [decide_eq_true_eq, if_neg hfolder]
  constructor
  · intro h hs hp
    refine startsWith_iff_begins.mp ⟨prefix_of_startsWith, fun hbegins => ?_⟩
    exact (h.mpr ⟨hs, hp, hbegins⟩).2.2
  · intro h
    constructor
    · rintro ⟨hs, hp, hin⟩
      exact ⟨hs, hp, prefix_of_startsWith hin⟩
    · rintro ⟨hs, hp, hbegins⟩
      exact ⟨hs, hp, (startsWith_iff_begins.mpr (h hs hp)).mpr hbegins⟩

/-- The condition is that of a prefix except where the last code point comes next, and the folder operations
    choose the rows under the folder except where the path of such a row goes on so. -/
theorem startsWith_exact_iff (column param folder path : Path) (db : Db) (storageId : Uuid) (p : FileRow → Bool)
    (r : FileRow) :
    ((StartsWithBytes column param ↔ param <+: column) ↔ ¬param ++ [maxChar] <+: column) ∧
      ((∀ r, r ∈ db.listLiveUnder storageId folder ↔
          r ∈ db.files ∧ r.storageId = storageId ∧ r.Live ∧ folder <+: r.path) ↔
        ∀ r ∈ db.files, r.storageId = storageId → r.Live → ¬folder ++ [maxChar] <+: r.path) ∧
      ((Db.atOrUnder storageId path (folder ++ ['/']) p r = true ↔
          r.storageId = storageId ∧ p r = true ∧ folder ++ ['/'] <+: r.path) ↔
        (r.storageId = storageId → p r = true → ¬folder ++ ['/'] ++ [maxChar] <+: r.path)) := by
  refine ⟨?_, listLiveUnder_exact_iff, ?_⟩
  · rw [← startsWith_iff_bytes]
    exact startsWith_iff_begins
  · apply atOrUnder_exact_iff
    simp

/-- A file that is named with the last code point is in its folder and not in the range. -/
theorem startsWith_misses_maxChar :
    ¬(StartsWithBytes ['a', '/', maxChar] ['a', '/'] ↔ ['a', '/'] <+: ['a', '/', maxChar]) := by
  decide

end Sarca.Server
