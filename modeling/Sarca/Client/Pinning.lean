import Sarca.Client.AppLock
import Sarca.Lib.Percent
import Sarca.Lib.Run

/-!
# Trust on first use

Where the chain of a server does not validate, `PinnedVerifier` accepts the key that its host had first.
`FilePinStore` holds the keys, in memory and in `pinned_keys.json`. `PinClient` is the store with the handshakes
under way; each looks into the store, puts a key there and writes the file in steps of its own, and the process
may end between any two of them. Of a certificate only its key is here and whether its chain validates, of the
file whether it can be read.
-/

namespace Sarca.Client
open Sarca.Lib

namespace Pinning

/-- `SHA-256` of a public key. -/
abbrev Pin := { bytes : List UInt8 // bytes.length = 32 }

/-- `hex::decode` -/
def decodeHex : List Char → Option (List UInt8)
  | [] => some []
  | [_] => none
  | hi :: lo :: rest =>
    match hexValue hi, hexValue lo, decodeHex rest with
    | some h, some l, some bytes => some (UInt8.ofNat (16 * h + l) :: bytes)
    | _, _, _ => none

/-- Rust `decode_pin`. -/
def decodePin (hex : List Char) : Option Pin :=
  (decodeHex hex).bind fun bytes => if h : bytes.length = 32 then some ⟨bytes, h⟩ else none

/-- What is noted of the hosts. -/
abbrev Pins := List (String × List Char)

namespace Pins

/-- Rust `get`; a note that is no pin is none. -/
def get (pins : Pins) (host : String) : Option Pin :=
  (pins.lookup host).bind decodePin

/-- Rust `put`, in memory. -/
def put (pins : Pins) (host : String) (pin : Pin) : Pins :=
  (host, AppLock.hex pin.1) :: pins.filter fun e => e.1 ≠ host

end Pins

/-- How a write of the file ends (Rust `write_private`, which truncates it first). -/
inductive Write where
  | done
  | failed
  | torn
deriving DecidableEq

def Write.leaves (pins : Pins) (file : Option Pins) : Write → Option Pins
  | .done => some pins
  | .failed => file
  | .torn => none

/-- Where a call of `verify_server_cert` stands. -/
inductive Handshake where
  | offered (host : String) (key : Pin) (chainValid : Bool)
  /-- nothing is known of the host -/
  | unknown (host : String) (key : Pin)
  /-- the key is in memory, and these pins are to be written -/
  | noted (host : String) (key : Pin) (snapshot : Pins)
deriving DecidableEq

/-- The client. `accepted` are the keys taken for their host whose chain did not validate. -/
structure PinClient where
  pins : Pins
  file : Option Pins
  calls : List Handshake
  accepted : List (String × Pin)

inductive PinAct where
  | connect (host : String) (key : Pin) (chainValid : Bool)
  /-- the next step of a handshake -/
  | next (c : Handshake) (w : Write)
  /-- the process ends, and starts again -/
  | restart

namespace PinClient

/-- Rust `FilePinStore::new`. -/
def start (file : Option Pins) : PinClient :=
  ⟨file.getD [], file, [], []⟩

variable (σ : PinClient)

/-- Rust `verify_server_cert`, up to the next look at the store or at the file. -/
def verify (others : List Handshake) (w : Write) : Handshake → PinClient
  | .offered _ _ true => { σ with calls := others }
  | .offered host key false =>
    match σ.pins.get host with
    | some known =>
      { σ with
        calls := others
        accepted := if known = key then (host, key) :: σ.accepted else σ.accepted }
    | none => { σ with calls := .unknown host key :: others }
  | .unknown host key =>
    { σ with pins := σ.pins.put host key, calls := .noted host key (σ.pins.put host key) :: others }
  | .noted host key snapshot =>
    { σ with
      file := w.leaves snapshot σ.file
      calls := others
      accepted := (host, key) :: σ.accepted }

def step : PinAct → PinClient
  | .connect host key chainValid => { σ with calls := .offered host key chainValid :: σ.calls }
  | .next c w => if c ∈ σ.calls then σ.verify (σ.calls.erase c) w c else σ
  | .restart => { σ with pins := σ.file.getD [], calls := [] }

/-- The hosts whose first key is about to be noted. -/
def firstSights : List String :=
  σ.calls.filterMap fun
    | .unknown host _ => some host
    | _ => none

/-- A handshake finds nothing known of a host only when no other does at the time, and the client starts again
    only when the file holds the keys that were accepted. -/
def Careful : PinAct → Prop
  | .next (.offered host _ false) _ => σ.pins.get host = none → host ∉ σ.firstSights
  | .restart => ∀ e ∈ σ.accepted, Pins.get (σ.file.getD []) e.1 = σ.pins.get e.1
  | _ => True

instance (σ : PinClient) : DecidablePred σ.Careful := fun a => by
  unfold Careful
  split <;> infer_instance

/-- An accepted key is the one known of its host, and the only one accepted for it. -/
structure Trusted : Prop where
  known : ∀ e ∈ σ.accepted, σ.pins.get e.1 = some e.2
  one : ∀ e ∈ σ.accepted, ∀ e' ∈ σ.accepted, e.1 = e'.1 → e = e'

end PinClient

/-! ## What a note says -/

lemma hexValue_hexDigitLower : ∀ n, n < 16 → hexValue (AppLock.hexDigitLower n) = some n := by
  decide

/-- What `hex` wrote reads back. -/
theorem decodeHex_hex (bytes : List UInt8) : decodeHex (AppLock.hex bytes) = some bytes := by
  induction bytes with
  | nil => rfl
  | cons b bytes ih =>
    have hb : b.toNat < 256 := b.toNat_lt
    have hval : 16 * (b.toNat / 16) + b.toNat % 16 = b.toNat := Nat.div_add_mod _ _
    have hcons : AppLock.hex (b :: bytes) = AppLock.hexDigitLower (b.toNat / 16) ::
        AppLock.hexDigitLower (b.toNat % 16) :: AppLock.hex bytes := rfl
    rw [hcons]
    simp only [decodeHex, hexValue_hexDigitLower _ (show b.toNat / 16 < 16 by omega),
      hexValue_hexDigitLower _ (show b.toNat % 16 < 16 by omega), ih, hval, UInt8.ofNat_toNat]

namespace Pins

variable {pins : Pins} {host other : String} {pin : Pin}

lemma get_put_self : (pins.put host pin).get host = some pin := by
  unfold get put
  rw [List.lookup_cons_self]
  simp only [Option.bind_some, decodePin, decodeHex_hex]
  exact dif_pos pin.2

/-- A key that is put leaves the other hosts theirs. -/
lemma get_put_other (hne : other ≠ host) : (pins.put host pin).get other = pins.get other := by
  have hhead : (other == host) = false := beq_eq_false_iff_ne.mpr hne
  have hrest : (pins.filter fun e => e.1 ≠ host).lookup other = pins.lookup other := by
    induction pins with
    | nil => rfl
    | cons e pins ih =>
      by_cases heq : e.1 = host
      · have hskip : (other == e.1) = false := by rw [heq]; exact hhead
        rw [List.filter_cons_of_neg (by simpa using heq), ih, List.lookup_cons, hskip]
      · rw [List.filter_cons_of_pos (by simpa using heq), List.lookup_cons, List.lookup_cons, ih]
  unfold get put
  rw [List.lookup_cons, hhead]
  exact congrArg (·.bind decodePin) hrest

end Pins

/-! ## Every run -/

namespace PinClient

variable {σ : PinClient} {rest : List Handshake} {w : Write}

/-- The handshakes under way agree with the memory, and no two are about to note one host. -/
structure Sound (σ : PinClient) : Prop where
  known : ∀ e ∈ σ.accepted, σ.pins.get e.1 = some e.2
  noted : ∀ host key snapshot, .noted host key snapshot ∈ σ.calls → σ.pins.get host = some key
  fresh : ∀ host ∈ σ.firstSights, σ.pins.get host = none
  apart : σ.firstSights.Nodup

lemma Sound.start (file : Option Pins) : (start file).Sound where
  known := List.forall_mem_nil _
  noted := nofun
  fresh := List.forall_mem_nil _
  apart := List.nodup_nil

/-- Handshakes that end leave the others. -/
lemma Sound.fewer (hs : σ.Sound) (hsub : rest.Sublist σ.calls) : Sound { σ with calls := rest } where
  known := hs.known
  noted := fun host key snapshot h => hs.noted host key snapshot (hsub.subset h)
  fresh := fun host h => hs.fresh host ((hsub.filterMap _).subset h)
  apart := hs.apart.sublist (hsub.filterMap _)

/-- A key that is the known one may be accepted. -/
lemma Sound.accept (hs : σ.Sound) {host : String} {key : Pin} (hknown : σ.pins.get host = some key) :
    Sound { σ with accepted := (host, key) :: σ.accepted } where
  known := List.forall_mem_cons.mpr ⟨hknown, hs.known⟩
  noted := hs.noted
  fresh := hs.fresh
  apart := hs.apart

/-- The file is not read while the client runs. -/
lemma Sound.write (hs : σ.Sound) (file : Option Pins) : Sound { σ with file := file } :=
  ⟨hs.known, hs.noted, hs.fresh, hs.apart⟩

/-- A host that no other handshake is about to note may become known. -/
lemma Sound.put (hs : σ.Sound) {host : String} {key : Pin} (hnone : σ.pins.get host = none)
    (hno : host ∉ σ.firstSights) (snapshot : Pins) :
    Sound { σ with pins := σ.pins.put host key, calls := .noted host key snapshot :: σ.calls } where
  known := by
    intro e he
    have hne : e.1 ≠ host := fun heq => by
      have h := hs.known e he
      rw [heq, hnone] at h
      cases h
    rw [Pins.get_put_other hne]
    exact hs.known e he
  noted := by
    intro host' key' snapshot' h
    obtain heq | hmem := List.mem_cons.mp h
    · cases heq
      exact Pins.get_put_self
    · have hold := hs.noted host' key' snapshot' hmem
      have hne : host' ≠ host := fun heq => by
        rw [heq, hnone] at hold
        cases hold
      rw [Pins.get_put_other hne]
      exact hold
  fresh := by
    intro host' h
    have hne : host' ≠ host := fun heq => hno (heq ▸ h)
    rw [Pins.get_put_other hne]
    exact hs.fresh host' h
  apart := hs.apart

/-- A step of a handshake that is under way. -/
lemma Sound.verify (hs : σ.Sound) {c : Handshake} (hc : c ∈ σ.calls) (hcare : σ.Careful (.next c w)) :
    (σ.verify (σ.calls.erase c) w c).Sound := by
  have hrest := hs.fewer (List.erase_sublist (a := c))
  cases c with
  | offered host key chainValid =>
    cases chainValid with
    | true => exact hrest
    | false =>
      dsimp only [PinClient.verify]
      split
      · case h_1 known hknown =>
        split
        · case isTrue heq => exact hrest.accept (heq ▸ hknown)
        · exact hrest
      · case h_2 hnone =>
        refine ⟨hrest.known, fun host' key' snapshot h => ?_, fun host' h => ?_, ?_⟩
        · obtain heq | hmem := List.mem_cons.mp h
          · cases heq
          · exact hrest.noted host' key' snapshot hmem
        · obtain rfl | hmem := List.mem_cons.mp h
          · exact hnone
          · exact hrest.fresh host' hmem
        · have hno : host ∉ σ.firstSights := hcare hnone
          exact List.nodup_cons.mpr
            ⟨fun h => hno ((List.erase_sublist.filterMap _).subset h), hrest.apart⟩
  | unknown host key =>
    have hperm := (List.perm_cons_erase hc).filterMap
      (fun | Handshake.unknown host _ => some host | _ => none)
    have hnodup : (host :: PinClient.firstSights { σ with calls := σ.calls.erase (.unknown host key) }).Nodup :=
      hperm.nodup hs.apart
    have hmem : host ∈ σ.firstSights := hperm.mem_iff.mpr List.mem_cons_self
    exact hrest.put (hs.fresh host hmem) (List.nodup_cons.mp hnodup).1 _
  | noted host key snapshot =>
    exact (hrest.accept (hs.noted host key snapshot hc)).write _

lemma Sound.step (hs : σ.Sound) {a : PinAct} (ha : σ.Careful a) : (σ.step a).Sound := by
  cases a with
  | connect host key chainValid =>
    refine ⟨hs.known, fun host' key' snapshot h => ?_, hs.fresh, hs.apart⟩
    obtain heq | hmem := List.mem_cons.mp h
    · cases heq
    · exact hs.noted host' key' snapshot hmem
  | next c w =>
    dsimp only [PinClient.step]
    split
    · case isTrue hc => exact hs.verify hc ha
    · exact hs
  | restart =>
    refine ⟨fun e he => ?_, nofun, List.forall_mem_nil _, List.nodup_nil⟩
    exact (ha e he).trans (hs.known e he)

/-- What the memory holds once, all accepted keys of a host are. -/
lemma Sound.trusted (hs : σ.Sound) : σ.Trusted where
  known := hs.known
  one := by
    intro e he e' he' hhost
    have h := hs.known e he
    rw [hhost, hs.known e' he'] at h
    exact Prod.ext hhost (Option.some.inj h).symm

/-- Over every run of handshakes and restarts that meets `Careful`, whatever the writes of the file come to,
    each host keeps the key it had first. -/
theorem trust_on_first_use {file : Option Pins} {acts : List PinAct}
    (h : AllOk step Careful (start file) acts) : Always step Trusted (start file) acts :=
  Always.mono (fun _ hs => hs.trusted)
    (always_of_allOk (P := Sound) (fun _ _ hs ha => hs.step ha) (Sound.start file) h)

def keyOf (n : UInt8) : Pin := ⟨List.replicate 32 n, List.length_replicate⟩

/-- Two hosts are noted at once, the list with one of them is written last, and the client starts again. -/
def twoHosts (w : Write) : List PinAct :=
  let first := (start none).pins.put "nas" (keyOf 1)
  [.connect "nas" (keyOf 1) false, .next (.offered "nas" (keyOf 1) false) .done,
    .connect "lan" (keyOf 2) false, .next (.offered "lan" (keyOf 2) false) .done,
    .next (.unknown "nas" (keyOf 1)) .done, .next (.unknown "lan" (keyOf 2)) .done,
    .next (.noted "lan" (keyOf 2) (first.put "lan" (keyOf 2))) .done,
    .next (.noted "nas" (keyOf 1) first) w, .restart,
    .connect "lan" (keyOf 3) false, .next (.offered "lan" (keyOf 3) false) .done,
    .next (.unknown "lan" (keyOf 3)) .done,
    .next (.noted "lan" (keyOf 3) (first.put "lan" (keyOf 3))) .done]

theorem twoHosts_trusted : Always step Trusted (start none) (twoHosts .failed) ∧
    (run step (start none) (twoHosts .failed)).accepted = [("nas", keyOf 1), ("lan", keyOf 2)] :=
  ⟨trust_on_first_use (by decide +kernel), by decide +kernel⟩

/-- The list that is written last lacks a host, and another key of it is accepted. -/
example : (run step (start none) (twoHosts .done)).accepted =
    [("lan", keyOf 3), ("nas", keyOf 1), ("lan", keyOf 2)] := by
  decide +kernel

end PinClient
end Pinning
end Sarca.Client
