import Mathlib.Data.List.Basic
import Mathlib.Logic.Function.Basic

/-!
# Authenticated encryption under one key

A cipher seals a text under a nonce and associated data, and opens what it is given under the same two.
`Aead.Ideal` says that it opens just what was sealed: nobody else has the key, so that no sealed text but
those of the list `sent` is ever accepted. `Aead.table` is a cipher that is ideal for the texts it has in
its table.
-/

namespace Sarca.Lib

/-- A cipher under one key. -/
structure Aead (ν α β : Type*) where
  sealInPlace : ν → α → β → β
  openInPlace : ν → α → β → Option β

/-- A text, and what it is sealed under. -/
@[ext] structure Sealing (ν α β : Type*) where
  nonce : ν
  aad : α
  plain : β
  deriving DecidableEq

namespace Aead

variable {ν α β : Type*}

/-- The cipher opens just what was sealed. -/
def Ideal (cipher : Aead ν α β) (sent : List (Sealing ν α β)) : Prop :=
  ∀ nonce aad bytes plain, cipher.openInPlace nonce aad bytes = some plain ↔
    ⟨nonce, aad, plain⟩ ∈ sent ∧ cipher.sealInPlace nonce aad plain = bytes

/-- What was sealed is opened. -/
lemma Ideal.open_seal {cipher : Aead ν α β} {sent : List (Sealing ν α β)} (h : cipher.Ideal sent)
    {s : Sealing ν α β} (hs : s ∈ sent) :
    cipher.openInPlace s.nonce s.aad (cipher.sealInPlace s.nonce s.aad s.plain) = some s.plain :=
  (h _ _ _ _).mpr ⟨hs, rfl⟩

/-- A cipher that looks up in a table what it is asked to open. -/
def table [DecidableEq ν] [DecidableEq α] [DecidableEq β] (encrypt : ν → α → β → β)
    (sent : List (Sealing ν α β)) : Aead ν α β where
  sealInPlace := encrypt
  openInPlace := fun nonce aad bytes =>
    (sent.find? fun s => s.nonce = nonce ∧ s.aad = aad ∧ encrypt nonce aad s.plain = bytes).map
      Sealing.plain

/-- The table's cipher is ideal. -/
lemma table_ideal [DecidableEq ν] [DecidableEq α] [DecidableEq β] {encrypt : ν → α → β → β}
    (hinj : ∀ nonce aad, Function.Injective (encrypt nonce aad)) (sent : List (Sealing ν α β)) :
    (table encrypt sent).Ideal sent := by
  intro nonce aad bytes plain
  constructor
  · intro h
    obtain ⟨s, hfind, rfl⟩ := Option.map_eq_some_iff.mp h
    have hs : s.nonce = nonce ∧ s.aad = aad ∧ encrypt nonce aad s.plain = bytes := by
      simpa using List.find?_some hfind
    obtain ⟨rfl, rfl, hbytes⟩ := hs
    exact ⟨List.mem_of_find?_eq_some hfind, hbytes⟩
  · intro h
    obtain ⟨hmem, rfl⟩ := h
    have hsome : (sent.find? fun s => s.nonce = nonce ∧ s.aad = aad ∧
        encrypt nonce aad s.plain = encrypt nonce aad plain).isSome := by
      rw [List.find?_isSome]
      exact ⟨_, hmem, decide_eq_true ⟨rfl, rfl, rfl⟩⟩
    obtain ⟨s, hfind⟩ := Option.isSome_iff_exists.mp hsome
    have hs : s.nonce = nonce ∧ s.aad = aad ∧
        encrypt nonce aad s.plain = encrypt nonce aad plain := by
      simpa using List.find?_some hfind
    exact Option.map_eq_some_iff.mpr ⟨s, hfind, hinj _ _ hs.2.2⟩

end Aead

end Sarca.Lib
