import Sarca.Lib.Aead
import Sarca.Server.Chunks

/-!
# The frames of an encrypted backup

The payload of an encrypted backup is cut into frames of a mebibyte, each sealed under the number of the
frame and a flag that marks the last one. `FrameWriter` cuts and seals, `FrameReader` opens one frame
after the other. The cipher is a parameter (`ring`'s AES-256-GCM under the key of one archive); what the
frames need of it are `AppendsTag` and `Aead.Ideal`.

`frames_authentic`: a payload comes back whole from the frames it was written to, unless it has too many
of them for the counter and is refused; and from any other bytes the reader takes a prefix of it, and
ends without an error only behind the whole.
-/

namespace Sarca.Server.Backup
open Sarca.Lib

/-- `io::ErrorKind`, as far as the frames use it. -/
inductive ErrorKind where
  | invalidData
  | other
  | writeZero
  deriving DecidableEq

/-- `io::Error` -/
structure IoError where
  kind : ErrorKind
  message : String
  deriving DecidableEq

def invalid (message : String) : IoError :=
  ⟨.invalidData, message⟩

def other (message : String) : IoError :=
  ⟨.other, message⟩

/-- `MAGIC`, the text `SARCABK1`. -/
def magic : Bytes :=
  [83, 65, 82, 67, 65, 66, 75, 49]

/-- `FORMAT_VERSION` -/
def formatVersion : UInt8 :=
  1

/-- `TAG_LEN` -/
def tagLen : Nat :=
  16

/-- `FRAME_PLAINTEXT_LEN` -/
def framePlaintextLen : Nat :=
  1048576

/-- `MAX_FRAME_LEN` -/
def maxFrameLen : Nat :=
  framePlaintextLen * 4 + tagLen

/-- The four bytes of a word, the greatest first (Rust `u32::to_be_bytes`). -/
def toBeBytes (n : UInt32) : Bytes :=
  [UInt8.ofNat (n.toNat / 16777216), UInt8.ofNat (n.toNat / 65536), UInt8.ofNat (n.toNat / 256),
    UInt8.ofNat n.toNat]

/-- The word of four bytes (Rust `u32::from_be_bytes`). -/
def fromBeBytes (a b c d : UInt8) : Nat :=
  a.toNat * 16777216 + b.toNat * 65536 + c.toNat * 256 + d.toNat

/-- Rust `checked_add(1)`. -/
def checkedSucc (n : UInt32) : Option UInt32 :=
  if n.toNat + 1 < 4294967296 then some (n + 1) else none

/-- Rust `u8::from`. -/
def flagByte (isLast : Bool) : UInt8 :=
  if isLast then 1 else 0

/-- What a frame is sealed under besides its nonce. -/
def frameAad (counter : UInt32) (isLast : Bool) : Bytes :=
  magic ++ [formatVersion] ++ toBeBytes counter ++ [flagByte isLast]

def nonceFor (noncePrefix : Bytes) (counter : UInt32) : Bytes :=
  noncePrefix ++ toBeBytes counter

abbrev Cipher := Aead Bytes Bytes Bytes

/-- Sealing appends a tag (Rust `seal_in_place_append_tag`). -/
def AppendsTag (cipher : Cipher) : Prop :=
  ∀ nonce aad plain, (cipher.sealInPlace nonce aad plain).length = plain.length + tagLen

/-! ## The writer -/

/-- Rust `FrameWriter`; `inner` are the bytes written so far, and `sent` what was sealed so far, which the
    code does not keep. -/
structure FrameWriter where
  inner : Bytes
  noncePrefix : Bytes
  counter : UInt32
  buf : Bytes
  sent : List (Sealing Bytes Bytes Bytes)

namespace FrameWriter

def new (noncePrefix : Bytes) : FrameWriter where
  inner := []
  noncePrefix := noncePrefix
  counter := 0
  buf := []
  sent := []

variable (cipher : Cipher)

def sealBuffered (w : FrameWriter) (isLast : Bool) : Except IoError FrameWriter :=
  let aad := frameAad w.counter isLast
  let nonce := nonceFor w.noncePrefix w.counter
  let buf := cipher.sealInPlace nonce aad w.buf
  if 4294967296 ≤ buf.length then .error (other "backup frame too large")
  else match checkedSucc w.counter with
    | none => .error (other "backup too large")
    | some counter => .ok
      { w with
        inner := w.inner ++ flagByte isLast :: toBeBytes (UInt32.ofNat buf.length) ++ buf
        counter := counter
        buf := []
        sent := w.sent ++ [⟨nonce, aad, w.buf⟩] }

/-- Rust `Write::write`: how many bytes were taken, and the writer after them. -/
def write (w : FrameWriter) (data : Bytes) : Except IoError (Nat × FrameWriter) :=
  let take := min data.length (framePlaintextLen - w.buf.length)
  let w := { w with buf := w.buf ++ data.take take }
  if w.buf.length = framePlaintextLen then (w.sealBuffered cipher false).map (Prod.mk take)
  else .ok (take, w)

/-- Rust `Write::write_all`: what one call does not take is offered to the next. -/
def writeAllFuel : Nat → FrameWriter → Bytes → Except IoError FrameWriter
  | 0, w, _ => .ok w
  | fuel + 1, w, data =>
    if data = [] then .ok w
    else match w.write cipher data with
      | .error e => .error e
      | .ok (taken, w) =>
        if taken = 0 then .error ⟨.writeZero, "failed to write whole buffer"⟩
        else writeAllFuel fuel w (data.drop taken)

def writeAll (w : FrameWriter) (data : Bytes) : Except IoError FrameWriter :=
  writeAllFuel cipher data.length w data

def writeEach : FrameWriter → List Bytes → Except IoError FrameWriter
  | w, [] => .ok w
  | w, data :: writes =>
    match w.writeAll cipher data with
    | .error e => .error e
    | .ok w => writeEach w writes

def finish (w : FrameWriter) : Except IoError FrameWriter :=
  w.sealBuffered cipher true

end FrameWriter

/-- An archive's frames, from the pieces its payload is written in. -/
def writeFrames (cipher : Cipher) (noncePrefix : Bytes) (writes : List Bytes) :
    Except IoError FrameWriter :=
  match (FrameWriter.new noncePrefix).writeEach cipher writes with
  | .error e => .error e
  | .ok w => w.finish cipher

/-! ## The reader -/

/-- Rust `FrameReader`; `inner` are the bytes to come. -/
structure FrameReader where
  inner : Bytes
  noncePrefix : Bytes
  counter : UInt32
  buf : Bytes
  pos : Nat
  done : Bool

/-- What has become of a reader after some reads. -/
inductive Ending where
  /-- there may be more to read -/
  | more (r : FrameReader)
  /-- the end of the stream -/
  | finished
  | failed (e : IoError)

namespace FrameReader

def new (inner noncePrefix : Bytes) : FrameReader where
  inner := inner
  noncePrefix := noncePrefix
  counter := 0
  buf := []
  pos := 0
  done := false

variable (cipher : Cipher)

/-- Open the next frame; `false` behind the last one. -/
def nextFrame (r : FrameReader) : Except IoError (Bool × FrameReader) :=
  if r.done then .ok (false, r)
  else match r.inner with
    | flag :: a :: b :: c :: d :: inner =>
      let isLast := flag == 1
      let len := fromBeBytes a b c d
      if len < tagLen ∨ maxFrameLen < len then .error (invalid "backup file is corrupted")
      else if inner.length < len then
        .error (invalid "backup file is truncated or corrupted")
      else
        match cipher.openInPlace (nonceFor r.noncePrefix r.counter) (frameAad r.counter isLast)
          (inner.take len) with
        | none => .error (invalid "wrong password, or the backup file is corrupted")
        | some plain =>
          match checkedSucc r.counter with
          | none => .error (invalid "backup too large")
          | some counter => .ok (true,
            { r with
              inner := inner.drop len
              counter := counter
              buf := plain
              pos := 0
              done := isLast })
    | _ => .error (invalid "backup file is truncated or corrupted")

/-- The loop of `read`: frames are opened until one has bytes that were not read. -/
def fillFuel : Nat → FrameReader → Except IoError (Bool × FrameReader)
  | 0, r => .ok (false, r)
  | fuel + 1, r =>
    if r.pos = r.buf.length then
      match r.nextFrame cipher with
      | .error e => .error e
      | .ok (false, r) => .ok (false, r)
      | .ok (true, r) => fillFuel fuel r
    else .ok (true, r)

/-- Each frame takes bytes of `inner`. -/
def fill (r : FrameReader) : Except IoError (Bool × FrameReader) :=
  fillFuel cipher (r.inner.length + 1) r

/-- Rust `Read::read` into a buffer of `size` bytes. -/
def read (r : FrameReader) (size : Nat) : Except IoError (Bytes × FrameReader) :=
  match r.fill cipher with
  | .error e => .error e
  | .ok (false, r) => .ok ([], r)
  | .ok (true, r) =>
    let take := min size (r.buf.length - r.pos)
    .ok ((r.buf.drop r.pos).take take, { r with pos := r.pos + take })

/-- Reads of these sizes, up to an error or the end of the stream: an answer without bytes to a read
    that asks for some. -/
def readEach : FrameReader → List Nat → Bytes × Ending
  | r, [] => ([], .more r)
  | r, size :: sizes =>
    match r.read cipher size with
    | .error e => ([], .failed e)
    | .ok (out, r) =>
      if out = [] ∧ 0 < size then ([], .finished)
      else (out ++ (readEach r sizes).1, (readEach r sizes).2)

end FrameReader

/-! ## Frames by number -/

lemma toNat_checkedSucc {n m : UInt32} (h : checkedSucc n = some m) : m.toNat = n.toNat + 1 := by
  unfold checkedSucc at h
  split at h
  · case isTrue hlt =>
    cases h
    rw [UInt32.toNat_add, UInt32.toNat_one, Nat.mod_eq_of_lt hlt]
  · cases h

lemma toBeBytes_eq (n : UInt32) : ∃ a b c d, toBeBytes n = [a, b, c, d] ∧
    fromBeBytes a b c d = n.toNat := by
  refine ⟨_, _, _, _, rfl, ?_⟩
  have hlt : n.toNat < 4294967296 := n.toNat_lt
  simp only [fromBeBytes, UInt8.toNat_ofNat']
  omega

lemma toBeBytes_injective {n m : UInt32} (h : toBeBytes n = toBeBytes m) : n = m := by
  obtain ⟨a, b, c, d, hn, hn'⟩ := toBeBytes_eq n
  obtain ⟨a', b', c', d', hm, hm'⟩ := toBeBytes_eq m
  rw [hn, hm] at h
  cases h
  exact UInt32.toNat_inj.mp (hn'.symm.trans hm')

lemma flagByte_eq_one (isLast : Bool) : (flagByte isLast == 1) = isLast := by
  cases isLast <;> rfl

/-- What is sealed under the number of a frame and its flag. -/
def sealing (noncePrefix : Bytes) (number : Nat) (isLast : Bool) (plain : Bytes) :
    Sealing Bytes Bytes Bytes :=
  ⟨nonceFor noncePrefix (UInt32.ofNat number), frameAad (UInt32.ofNat number) isLast, plain⟩

lemma sealing_inj {noncePrefix : Bytes} {number : Nat} {counter : UInt32} {isLast isLast' : Bool}
    {plain plain' : Bytes} (hnumber : number < 4294967296)
    (h : (⟨nonceFor noncePrefix counter, frameAad counter isLast, plain⟩ : Sealing Bytes Bytes Bytes) =
      sealing noncePrefix number isLast' plain') :
    number = counter.toNat ∧ isLast = isLast' ∧ plain = plain' := by
  have hnonce : nonceFor noncePrefix counter = nonceFor noncePrefix (UInt32.ofNat number) :=
    congrArg Sealing.nonce h
  have haad : frameAad counter isLast = frameAad (UInt32.ofNat number) isLast' :=
    congrArg Sealing.aad h
  have hcounter : counter = UInt32.ofNat number :=
    toBeBytes_injective (List.append_cancel_left hnonce)
  rw [← hcounter] at haad
  have hflag : flagByte isLast = flagByte isLast' := (List.cons.inj (List.append_cancel_left haad)).1
  refine ⟨?_, ?_, congrArg Sealing.plain h⟩
  · rw [hcounter, UInt32.toNat_ofNat_of_lt' hnumber]
  · rw [← flagByte_eq_one isLast, hflag, flagByte_eq_one]

def frameBytes (cipher : Cipher) (noncePrefix : Bytes) (number : Nat) (isLast : Bool) (plain : Bytes) :
    Bytes :=
  let s := sealing noncePrefix number isLast plain
  let bytes := cipher.sealInPlace s.nonce s.aad plain
  flagByte isLast :: toBeBytes (UInt32.ofNat bytes.length) ++ bytes

/-- The texts of some frames and whether each is the last one, from a number on. -/
def sealings (noncePrefix : Bytes) : Nat → List (Bytes × Bool) → List (Sealing Bytes Bytes Bytes)
  | _, [] => []
  | number, (plain, isLast) :: frames =>
    sealing noncePrefix number isLast plain :: sealings noncePrefix (number + 1) frames

def framesBytes (cipher : Cipher) (noncePrefix : Bytes) : Nat → List (Bytes × Bool) → Bytes
  | _, [] => []
  | number, (plain, isLast) :: frames =>
    frameBytes cipher noncePrefix number isLast plain ++
      framesBytes cipher noncePrefix (number + 1) frames

variable {cipher : Cipher} {noncePrefix : Bytes} {frames : List (Bytes × Bool)} {number : Nat}

lemma sealings_append (frames' : List (Bytes × Bool)) :
    sealings noncePrefix number (frames ++ frames') =
      sealings noncePrefix number frames ++ sealings noncePrefix (number + frames.length) frames' := by
  induction frames generalizing number with
  | nil => rfl
  | cons f frames ih =>
    show sealing _ _ _ _ :: sealings _ _ (frames ++ frames') = _
    rw [ih, List.length_cons, Nat.add_assoc, Nat.add_comm 1]
    rfl

lemma framesBytes_append (frames' : List (Bytes × Bool)) :
    framesBytes cipher noncePrefix number (frames ++ frames') =
      framesBytes cipher noncePrefix number frames ++
        framesBytes cipher noncePrefix (number + frames.length) frames' := by
  induction frames generalizing number with
  | nil => rfl
  | cons f frames ih =>
    show frameBytes _ _ _ _ _ ++ framesBytes _ _ _ (frames ++ frames') = _
    rw [ih, List.length_cons, Nat.add_assoc, Nat.add_comm 1, ← List.append_assoc]
    rfl

lemma mem_sealings {s : Sealing Bytes Bytes Bytes} :
    s ∈ sealings noncePrefix number frames ↔
      ∃ i f, frames[i]? = some f ∧ s = sealing noncePrefix (number + i) f.2 f.1 := by
  induction frames generalizing number with
  | nil =>
    constructor
    · intro h
      cases h
    · intro h
      obtain ⟨i, f, hf, _⟩ := h
      cases hf
  | cons f frames ih =>
    obtain ⟨plain, isLast⟩ := f
    show s ∈ sealing _ _ _ _ :: sealings _ _ frames ↔ _
    rw [List.mem_cons, ih]
    constructor
    · intro h
      cases h with
      | inl h => exact ⟨0, _, rfl, h⟩
      | inr h =>
        obtain ⟨i, f, hf, rfl⟩ := h
        exact ⟨i + 1, f, hf, by rw [Nat.add_assoc, Nat.add_comm 1]⟩
    · intro h
      obtain ⟨i, f, hf, rfl⟩ := h
      cases i with
      | zero =>
        cases hf
        exact Or.inl rfl
      | succ i => exact Or.inr ⟨i, f, hf, by rw [Nat.add_assoc, Nat.add_comm 1]⟩

/-! ## What the writer has written -/

def inner (frames : List Bytes) : List (Bytes × Bool) :=
  frames.map fun plain => (plain, false)

/-- A writer that has taken some data: the full frames are sealed, and the rest is in the buffer. -/
structure Writing (cipher : Cipher) (noncePrefix : Bytes) (frames : List Bytes) (w : FrameWriter)
    (data : Bytes) : Prop where
  full : ∀ f ∈ frames, f.length = framePlaintextLen
  data_eq : frames.flatten ++ w.buf = data
  counter : w.counter.toNat = frames.length
  noncePrefix_eq : w.noncePrefix = noncePrefix
  sent : w.sent = sealings noncePrefix 0 (inner frames)
  inner_eq : w.inner = framesBytes cipher noncePrefix 0 (inner frames)

namespace Writing

variable {frames : List Bytes} {w : FrameWriter} {data : Bytes}

lemma new (cipher : Cipher) (noncePrefix : Bytes) :
    Writing cipher noncePrefix [] (FrameWriter.new noncePrefix) [] where
  full := fun _ hf => absurd hf List.not_mem_nil
  data_eq := rfl
  counter := rfl
  noncePrefix_eq := rfl
  sent := rfl
  inner_eq := rfl

lemma length_eq (h : Writing cipher noncePrefix frames w data) :
    data.length = frames.length * framePlaintextLen + w.buf.length := by
  have hflatten : ∀ l : List Bytes, (∀ f ∈ l, f.length = framePlaintextLen) →
      l.flatten.length = l.length * framePlaintextLen := by
    intro l hl
    induction l with
    | nil => exact (Nat.zero_mul _).symm
    | cons f l ih =>
      rw [List.flatten_cons, List.length_append, hl f List.mem_cons_self,
        ih fun f hf => hl f (List.mem_cons_of_mem _ hf), List.length_cons, Nat.succ_mul, Nat.add_comm]
  rw [← h.data_eq, List.length_append, hflatten frames h.full]

lemma sealBuffered (htag : AppendsTag cipher) (h : Writing cipher noncePrefix frames w data)
    (hshort : w.buf.length ≤ framePlaintextLen) (isLast : Bool) :
    (frames.length + 1 < 4294967296 → ∃ w', w.sealBuffered cipher isLast = .ok w' ∧ w'.buf = [] ∧
      w'.counter.toNat = frames.length + 1 ∧ w'.noncePrefix = noncePrefix ∧
      w'.sent = sealings noncePrefix 0 (inner frames ++ [(w.buf, isLast)]) ∧
      w'.inner = framesBytes cipher noncePrefix 0 (inner frames ++ [(w.buf, isLast)])) ∧
    (4294967296 ≤ frames.length + 1 →
      w.sealBuffered cipher isLast = .error (other "backup too large")) := by
  have hfits : ¬ 4294967296 ≤
      (cipher.sealInPlace (nonceFor w.noncePrefix w.counter) (frameAad w.counter isLast)
        w.buf).length := by
    rw [htag]
    simp only [framePlaintextLen, tagLen] at hshort ⊢
    omega
  have hcounter : w.counter = UInt32.ofNat (0 + (inner frames).length) := by
    rw [inner, List.length_map, Nat.zero_add, ← h.counter, UInt32.ofNat_toNat]
  constructor
  · intro hlt
    have hsucc : checkedSucc w.counter = some (w.counter + 1) := by
      rw [checkedSucc, h.counter, if_pos hlt]
    let nonce := nonceFor w.noncePrefix w.counter
    let aad := frameAad w.counter isLast
    let bytes := cipher.sealInPlace nonce aad w.buf
    have hsealing : sealing noncePrefix (0 + (inner frames).length) isLast w.buf =
        ⟨nonce, aad, w.buf⟩ := by
      rw [sealing, ← hcounter, ← h.noncePrefix_eq]
    refine ⟨{ w with
      inner := w.inner ++ flagByte isLast :: toBeBytes (UInt32.ofNat bytes.length) ++ bytes
      counter := w.counter + 1
      buf := []
      sent := w.sent ++ [⟨nonce, aad, w.buf⟩] }, ?_, rfl, ?_, h.noncePrefix_eq, ?_, ?_⟩
    · rw [FrameWriter.sealBuffered]
      simp only [if_neg hfits, hsucc]
      rfl
    · rw [toNat_checkedSucc hsucc, h.counter]
    · rw [sealings_append, ← h.sent]
      simp only [sealings, hsealing]
    · rw [framesBytes_append, ← h.inner_eq]
      simp only [framesBytes, frameBytes, hsealing, List.append_nil, List.append_assoc,
        List.cons_append]
      rfl
  · intro hle
    have hnone : checkedSucc w.counter = none := by
      rw [checkedSucc, h.counter, if_neg (Nat.not_lt.mpr hle)]
    rw [FrameWriter.sealBuffered]
    simp only [if_neg hfits, hnone]

/-- One call takes some of the data, or the counter is at its end. -/
lemma write (htag : AppendsTag cipher) (h : Writing cipher noncePrefix frames w data)
    (hshort : w.buf.length < framePlaintextLen) {more : Bytes} (hmore : more ≠ []) :
    (∃ frames' w' taken, w.write cipher more = .ok (taken, w') ∧ 0 < taken ∧
      Writing cipher noncePrefix frames' w' (data ++ more.take taken) ∧
      w'.buf.length < framePlaintextLen) ∨
    w.write cipher more = .error (other "backup too large") ∧
      4294967295 * framePlaintextLen ≤ (data ++ more).length := by
  have hpos : 0 < more.length := List.length_pos_iff.mpr hmore
  let taken := min more.length (framePlaintextLen - w.buf.length)
  have htaken : 0 < taken := by omega
  have htake : (more.take taken).length = taken := by
    rw [List.length_take]
    omega
  let w₁ : FrameWriter := { w with buf := w.buf ++ more.take taken }
  have hlength : w₁.buf.length = w.buf.length + taken := by
    rw [List.length_append, htake]
  have h₁ : Writing cipher noncePrefix frames w₁ (data ++ more.take taken) :=
    { h with data_eq := by rw [← h.data_eq, List.append_assoc] }
  have hwrite : w.write cipher more =
      if w₁.buf.length = framePlaintextLen then (w₁.sealBuffered cipher false).map (Prod.mk taken)
      else .ok (taken, w₁) := rfl
  rw [hwrite]
  split
  · case isTrue hfull =>
    obtain ⟨hok, herror⟩ := h₁.sealBuffered htag hfull.le false
    cases Nat.lt_or_ge (frames.length + 1) 4294967296 with
    | inl hlt =>
      obtain ⟨w', hw', hbuf, hcounter, hpre, hsent, hinner⟩ := hok hlt
      have hframes : inner (frames ++ [w₁.buf]) = inner frames ++ [(w₁.buf, false)] :=
        List.map_append
      refine Or.inl ⟨frames ++ [w₁.buf], w', taken, by rw [hw']; rfl, htaken, ?_, ?_⟩
      · constructor
        · intro f hf
          cases List.mem_append.mp hf with
          | inl hf => exact h.full f hf
          | inr hf =>
            cases List.mem_singleton.mp hf
            exact hfull
        · rw [hbuf, List.append_nil, List.flatten_append, List.flatten_singleton, h₁.data_eq]
        · rw [hcounter, List.length_append]
          rfl
        · exact hpre
        · rw [hsent, hframes]
        · rw [hinner, hframes]
      · rw [hbuf]
        exact Nat.zero_lt_of_lt hshort
    | inr hge =>
      refine Or.inr ⟨by rw [herror hge]; rfl, ?_⟩
      have hdata := h.length_eq
      have hle : 4294967295 * framePlaintextLen ≤ frames.length * framePlaintextLen :=
        Nat.mul_le_mul_right _ (Nat.le_of_succ_le_succ hge)
      rw [List.length_append]
      omega
  · case isFalse hpartial =>
    refine Or.inl ⟨frames, w₁, taken, rfl, htaken, h₁, ?_⟩
    omega

lemma writeAllFuel (htag : AppendsTag cipher) (fuel : Nat) :
    ∀ {frames : List Bytes} {w : FrameWriter} {data more : Bytes},
      Writing cipher noncePrefix frames w data → w.buf.length < framePlaintextLen →
      more.length ≤ fuel →
      (∃ frames' w', w.writeAllFuel cipher fuel more = .ok w' ∧
        Writing cipher noncePrefix frames' w' (data ++ more) ∧ w'.buf.length < framePlaintextLen) ∨
      w.writeAllFuel cipher fuel more = .error (other "backup too large") ∧
        4294967295 * framePlaintextLen ≤ (data ++ more).length := by
  induction fuel with
  | zero =>
    intro frames w data more h hshort hfuel
    cases List.length_eq_zero_iff.mp (Nat.le_zero.mp hfuel)
    exact Or.inl ⟨frames, w, rfl, by rwa [List.append_nil], hshort⟩
  | succ fuel ih =>
    intro frames w data more h hshort hfuel
    rw [FrameWriter.writeAllFuel]
    split
    · case isTrue hnil =>
      rw [hnil, List.append_nil]
      exact Or.inl ⟨frames, w, rfl, h, hshort⟩
    · case isFalse hmore =>
      cases h.write htag hshort hmore with
      | inl hok =>
        obtain ⟨frames', w', taken, hw', htaken, h', hshort'⟩ := hok
        have hdata : data ++ more.take taken ++ more.drop taken = data ++ more := by
          rw [List.append_assoc, List.take_append_drop]
        have hrest : (more.drop taken).length ≤ fuel := by
          rw [List.length_drop]
          omega
        rw [hw']
        simp only [if_neg (Nat.ne_of_gt htaken)]
        rw [← hdata]
        exact ih h' hshort' hrest
      | inr herror =>
        obtain ⟨herror, hlong⟩ := herror
        rw [herror]
        exact Or.inr ⟨rfl, hlong⟩

lemma writeEach (htag : AppendsTag cipher) (writes : List Bytes) :
    ∀ {frames : List Bytes} {w : FrameWriter} {data : Bytes},
      Writing cipher noncePrefix frames w data → w.buf.length < framePlaintextLen →
      (∃ frames' w', w.writeEach cipher writes = .ok w' ∧
        Writing cipher noncePrefix frames' w' (data ++ writes.flatten) ∧
        w'.buf.length < framePlaintextLen) ∨
      w.writeEach cipher writes = .error (other "backup too large") ∧
        4294967295 * framePlaintextLen ≤ (data ++ writes.flatten).length := by
  induction writes with
  | nil =>
    intro frames w data h hshort
    exact Or.inl ⟨frames, w, rfl, by rwa [List.flatten_nil, List.append_nil], hshort⟩
  | cons more writes ih =>
    intro frames w data h hshort
    rw [FrameWriter.writeEach, List.flatten_cons, ← List.append_assoc]
    cases writeAllFuel htag more.length h hshort (Nat.le_refl _) with
    | inl hok =>
      obtain ⟨frames', w', hw', h', hshort'⟩ := hok
      rw [FrameWriter.writeAll, hw']
      exact ih h' hshort'
    | inr herror =>
      obtain ⟨herror, hlong⟩ := herror
      rw [FrameWriter.writeAll, herror]
      refine Or.inr ⟨rfl, Nat.le_trans hlong ?_⟩
      exact (List.prefix_append _ _).length_le

end Writing

/-! ## What the reader has read -/

/-- The frames of one archive: the last one has the flag, and they can be numbered. -/
structure Numbered (frames : List (Bytes × Bool)) : Prop where
  short : frames.length < 4294967296
  last : ∀ i f, frames[i]? = some f → (f.2 = true ↔ i + 1 = frames.length)

def payload (frames : List (Bytes × Bool)) : Bytes :=
  (frames.map Prod.fst).flatten

/-- A reader that has opened as many frames as it counts, and has given out all but the rest of its
    buffer. -/
structure Reading (noncePrefix : Bytes) (frames : List (Bytes × Bool)) (r : FrameReader)
    (out : Bytes) : Prop where
  noncePrefix_eq : r.noncePrefix = noncePrefix
  counter_le : r.counter.toNat ≤ frames.length
  pos_le : r.pos ≤ r.buf.length
  out_eq : out ++ r.buf.drop r.pos = payload (frames.take r.counter.toNat)
  done : r.done = true → r.counter.toNat = frames.length

lemma FrameReader.nextFrame_ok {r r' : FrameReader} {more : Bool}
    (h : r.nextFrame cipher = .ok (more, r')) :
    (more = false ∧ r.done = true ∧ r' = r) ∨
    (more = true ∧ ∃ isLast bytes plain,
      cipher.openInPlace (nonceFor r.noncePrefix r.counter) (frameAad r.counter isLast) bytes =
        some plain ∧
      r'.inner.length < r.inner.length ∧ r'.noncePrefix = r.noncePrefix ∧
      r'.counter.toNat = r.counter.toNat + 1 ∧ r'.buf = plain ∧ r'.pos = 0 ∧ r'.done = isLast) := by
  unfold FrameReader.nextFrame at h
  split at h
  · case isTrue hdone =>
    cases h
    exact Or.inl ⟨rfl, hdone, rfl⟩
  · split at h
    · case h_1 flag a b c d rest hinner =>
      dsimp only at h
      split at h
      · cases h
      · split at h
        · cases h
        · split at h
          · cases h
          · case h_2 plain hplain =>
            split at h
            · cases h
            · case h_2 counter hcounter =>
              cases h
              refine Or.inr ⟨rfl, _, _, plain, hplain, ?_, rfl, toNat_checkedSucc hcounter, rfl, rfl,
                rfl⟩
              rw [hinner, List.length_drop]
              simp only [List.length_cons]
              omega
    · cases h

namespace Reading

variable {r r' : FrameReader} {out : Bytes} {more : Bool}

lemma new (noncePrefix bytes : Bytes) (frames : List (Bytes × Bool)) :
    Reading noncePrefix frames (FrameReader.new bytes noncePrefix) [] where
  noncePrefix_eq := rfl
  counter_le := Nat.zero_le _
  pos_le := Nat.le_refl _
  out_eq := rfl
  done := fun hno => nomatch hno

lemma nextFrame (hframes : Numbered frames) (hideal : cipher.Ideal (sealings noncePrefix 0 frames))
    (h : Reading noncePrefix frames r out) (hread : r.pos = r.buf.length)
    (hnext : r.nextFrame cipher = .ok (more, r')) : Reading noncePrefix frames r' out := by
  cases FrameReader.nextFrame_ok hnext with
  | inl hend =>
    obtain ⟨-, -, rfl⟩ := hend
    exact h
  | inr hopen =>
    obtain ⟨-, isLast, bytes, plain, hopen, -, hpre, hcounter, rfl, hpos, rfl⟩ := hopen
    rw [h.noncePrefix_eq] at hopen
    obtain ⟨i, f, hf, hsealing⟩ := mem_sealings.mp ((hideal _ _ _ _).mp hopen).1
    have hi : i < frames.length := (List.getElem?_eq_some_iff.mp hf).1
    have hshort : 0 + i < 4294967296 := by
      have := hframes.short
      omega
    obtain ⟨hnumber, hlast, hplain⟩ := sealing_inj hshort hsealing
    rw [Nat.zero_add] at hnumber
    subst hnumber
    constructor
    · exact hpre.trans h.noncePrefix_eq
    · rw [hcounter]
      exact hi
    · rw [hpos]
      exact Nat.zero_le _
    · have hout := h.out_eq
      rw [hread, List.drop_length, List.append_nil] at hout
      rw [hcounter, hpos, List.drop_zero, hplain, hout, payload, payload, List.take_add_one, hf,
        List.map_append, List.flatten_append]
      simp only [Option.toList_some, List.map_cons, List.map_nil, List.flatten_singleton]
    · intro hdone
      rw [hcounter]
      exact (hframes.last _ f hf).mp (hlast.symm.trans hdone)

lemma fillFuel (hframes : Numbered frames) (hideal : cipher.Ideal (sealings noncePrefix 0 frames))
    (fuel : Nat) : ∀ {r : FrameReader}, Reading noncePrefix frames r out → r.inner.length < fuel →
      r.fillFuel cipher fuel = .ok (more, r') → Reading noncePrefix frames r' out ∧
        (more = true → r'.pos < r'.buf.length) ∧
        (more = false → r'.done = true ∧ r'.pos = r'.buf.length) := by
  induction fuel with
  | zero => exact fun _ hfuel => absurd hfuel (Nat.not_lt_zero _)
  | succ fuel ih =>
    intro r h hfuel hfill
    rw [FrameReader.fillFuel] at hfill
    split at hfill
    · case isTrue hread =>
      split at hfill
      · cases hfill
      · case h_2 r₁ hnext =>
        cases hfill
        have h' := h.nextFrame hframes hideal hread hnext
        cases FrameReader.nextFrame_ok hnext with
        | inl hend =>
          obtain ⟨-, hdone, rfl⟩ := hend
          exact ⟨h', fun hno => absurd hno Bool.false_ne_true, fun _ => ⟨hdone, hread⟩⟩
        | inr hopen => exact Bool.noConfusion hopen.1
      · case h_3 r₁ hnext =>
        have h' := h.nextFrame hframes hideal hread hnext
        cases FrameReader.nextFrame_ok hnext with
        | inl hend => exact Bool.noConfusion hend.1
        | inr hopen =>
          obtain ⟨-, isLast, bytes, plain, -, hless, -⟩ := hopen
          exact ih h' (by omega) hfill
    · case isFalse hread =>
      cases hfill
      exact ⟨h, fun _ => Nat.lt_of_le_of_ne h.pos_le hread, fun hno => nomatch hno⟩

/-- A read gives out what comes next; when it gives out nothing it was asked for nothing, or there is
    nothing more. -/
lemma read (hframes : Numbered frames) (hideal : cipher.Ideal (sealings noncePrefix 0 frames))
    (h : Reading noncePrefix frames r out) {size : Nat} {bytes : Bytes}
    (hread : r.read cipher size = .ok (bytes, r')) :
    Reading noncePrefix frames r' (out ++ bytes) ∧
      (bytes = [] → 0 < size → out = payload frames) := by
  unfold FrameReader.read at hread
  split at hread
  · cases hread
  · case h_2 r₁ hfill =>
    cases hread
    obtain ⟨h', -, hend⟩ := h.fillFuel hframes hideal _ (Nat.lt_succ_self _) hfill
    obtain ⟨hdone, hpos⟩ := hend rfl
    rw [List.append_nil]
    refine ⟨h', fun _ _ => ?_⟩
    have hout := h'.out_eq
    rwa [hpos, List.drop_length, List.append_nil, h'.done hdone, List.take_length] at hout
  · case h_3 r₁ hfill =>
    cases hread
    obtain ⟨h', hmore, -⟩ := h.fillFuel hframes hideal _ (Nat.lt_succ_self _) hfill
    have hpos := hmore rfl
    constructor
    · refine ⟨h'.noncePrefix_eq, h'.counter_le, ?_, ?_, h'.done⟩
      · show r₁.pos + min size (r₁.buf.length - r₁.pos) ≤ r₁.buf.length
        omega
      · show out ++ _ ++ r₁.buf.drop (r₁.pos + _) = _
        rw [← h'.out_eq, List.append_assoc, ← List.drop_drop, List.take_append_drop]
    · intro hnil hsize
      have hlength := congrArg List.length hnil
      rw [List.length_take, List.length_drop, List.length_nil] at hlength
      omega

lemma readEach (hframes : Numbered frames) (hideal : cipher.Ideal (sealings noncePrefix 0 frames))
    {sizes : List Nat} : ∀ {r : FrameReader} {out : Bytes}, Reading noncePrefix frames r out →
      out ++ (r.readEach cipher sizes).1 <+: payload frames ∧
      ((r.readEach cipher sizes).2 = .finished →
        out ++ (r.readEach cipher sizes).1 = payload frames) := by
  have hpre : ∀ {r : FrameReader} {out : Bytes}, Reading noncePrefix frames r out →
      out <+: payload frames := by
    intro r out h
    refine (List.prefix_append out (r.buf.drop r.pos)).trans ?_
    rw [h.out_eq]
    refine ⟨payload (frames.drop r.counter.toNat), ?_⟩
    rw [payload, payload, payload, ← List.flatten_append, ← List.map_append, List.take_append_drop]
  induction sizes with
  | nil =>
    intro r out h
    rw [FrameReader.readEach, List.append_nil]
    exact ⟨hpre h, fun hno => nomatch hno⟩
  | cons size sizes ih =>
    intro r out h
    rw [FrameReader.readEach]
    split
    · rw [List.append_nil]
      exact ⟨hpre h, fun hno => nomatch hno⟩
    · case h_2 bytes r₁ hread =>
      obtain ⟨h', hend⟩ := h.read hframes hideal hread
      split
      · case isTrue hnil =>
        rw [List.append_nil]
        exact ⟨hpre h, fun _ => hend hnil.1 hnil.2⟩
      · rw [← List.append_assoc]
        exact ih h'

end Reading

/-! ## Reading an archive back -/

lemma FrameReader.readEach_more {sizes : List Nat} : ∀ {r r' : FrameReader},
    (r.readEach cipher sizes).2 = .more r' →
      sizes.countP (0 < ·) ≤ (r.readEach cipher sizes).1.length := by
  induction sizes with
  | nil => exact fun _ => Nat.zero_le _
  | cons size sizes ih =>
    intro r r' h
    rw [FrameReader.readEach] at h ⊢
    split at h
    · cases h
    · case h_2 bytes r₁ hread =>
      split at h
      · cases h
      · case isFalse hsome =>
        rw [if_neg hsome]
        have hrest := ih h
        simp only [List.length_append, List.countP_cons, decide_eq_true_eq]
        split
        · case isTrue hsize =>
          have hpos : 0 < bytes.length := List.length_pos_iff.mpr fun hnil => hsome ⟨hnil, hsize⟩
          omega
        · omega

/-- The reader stands where the next frame of the archive begins. -/
structure Facing (cipher : Cipher) (noncePrefix : Bytes) (frames : List (Bytes × Bool))
    (r : FrameReader) : Prop where
  inner : r.inner = framesBytes cipher noncePrefix r.counter.toNat (frames.drop r.counter.toNat)
  more : r.done = false → r.counter.toNat < frames.length

namespace Facing

variable {r : FrameReader} {out : Bytes}

/-- The next frame opens. -/
lemma nextFrame (htag : AppendsTag cipher) (hframes : Numbered frames)
    (hsize : ∀ f ∈ frames, f.1.length ≤ framePlaintextLen)
    (hideal : cipher.Ideal (sealings noncePrefix 0 frames))
    (h : Reading noncePrefix frames r out) (hfacing : Facing cipher noncePrefix frames r) :
    ∃ more r', r.nextFrame cipher = .ok (more, r') ∧ Facing cipher noncePrefix frames r' := by
  cases hdone : r.done with
  | true =>
    refine ⟨false, r, ?_, hfacing⟩
    rw [FrameReader.nextFrame, if_pos hdone]
  | false =>
    have hlt := hfacing.more hdone
    let k := r.counter.toNat
    obtain ⟨⟨plain, isLast⟩, hget⟩ : ∃ f, frames[k]? = some f := ⟨_, List.getElem?_eq_getElem hlt⟩
    have hf : frames[k] = (plain, isLast) := (List.getElem?_eq_some_iff.mp hget).2
    let nonce := nonceFor noncePrefix (UInt32.ofNat k)
    let aad := frameAad (UInt32.ofNat k) isLast
    let bytes := cipher.sealInPlace nonce aad plain
    let rest := framesBytes cipher noncePrefix (k + 1) (frames.drop (k + 1))
    have hlength : bytes.length = plain.length + tagLen := htag _ _ _
    have hplain : plain.length ≤ framePlaintextLen := hsize _ (List.mem_of_getElem? hget)
    obtain ⟨a, b, c, d, hbe, hlen⟩ := toBeBytes_eq (UInt32.ofNat bytes.length)
    have hinner : r.inner = flagByte isLast :: a :: b :: c :: d :: (bytes ++ rest) := by
      rw [hfacing.inner, List.drop_eq_getElem_cons hlt, hf]
      show flagByte isLast :: toBeBytes (UInt32.ofNat bytes.length) ++ bytes ++ rest = _
      rw [hbe]
      rfl
    have hword : fromBeBytes a b c d = bytes.length := by
      rw [hlen, UInt32.toNat_ofNat_of_lt']
      show bytes.length < 4294967296
      simp only [framePlaintextLen, tagLen] at hplain hlength
      omega
    have hallowed : ¬ (bytes.length < tagLen ∨ maxFrameLen < bytes.length) := by
      simp only [framePlaintextLen, tagLen, maxFrameLen] at hplain hlength ⊢
      omega
    have hthere : ¬ (bytes ++ rest).length < bytes.length := by
      rw [List.length_append]
      omega
    have hopens : cipher.openInPlace (nonceFor r.noncePrefix r.counter) (frameAad r.counter isLast)
        bytes = some plain := by
      have hmem : sealing noncePrefix k isLast plain ∈ sealings noncePrefix 0 frames :=
        mem_sealings.mpr ⟨k, _, hget, by rw [Nat.zero_add]⟩
      have hcounter : UInt32.ofNat k = r.counter := UInt32.ofNat_toNat
      rw [h.noncePrefix_eq, ← hcounter]
      exact hideal.open_seal hmem
    have hsucc : checkedSucc r.counter = some (r.counter + 1) := by
      have := hframes.short
      rw [checkedSucc, if_pos (by omega)]
    have hnumber := toNat_checkedSucc hsucc
    refine ⟨true, { r with
      inner := rest
      counter := r.counter + 1
      buf := plain
      pos := 0
      done := isLast }, ?_, ?_, ?_⟩
    · rw [FrameReader.nextFrame, if_neg (by rw [hdone]; exact Bool.false_ne_true), hinner]
      simp only [flagByte_eq_one, hword, if_neg hallowed, if_neg hthere, List.take_left,
        List.drop_left, hopens, hsucc]
    · rw [hnumber]
    · intro hmore
      have hnot : ¬ k + 1 = frames.length := fun heq =>
        Bool.false_ne_true (hmore.symm.trans ((hframes.last k _ hget).mpr heq))
      show (r.counter + 1).toNat < _
      rw [hnumber]
      omega

lemma fillFuel (htag : AppendsTag cipher) (hframes : Numbered frames)
    (hsize : ∀ f ∈ frames, f.1.length ≤ framePlaintextLen)
    (hideal : cipher.Ideal (sealings noncePrefix 0 frames)) (fuel : Nat) :
    ∀ {r : FrameReader}, Reading noncePrefix frames r out → Facing cipher noncePrefix frames r →
      ∃ more r', r.fillFuel cipher fuel = .ok (more, r') ∧ Facing cipher noncePrefix frames r' := by
  induction fuel with
  | zero => exact fun {r} _ hfacing => ⟨false, r, rfl, hfacing⟩
  | succ fuel ih =>
    intro r h hfacing
    rw [FrameReader.fillFuel]
    split
    · case isTrue hread =>
      obtain ⟨more, r₁, hnext, hfacing₁⟩ := hfacing.nextFrame htag hframes hsize hideal h
      rw [hnext]
      cases more with
      | false => exact ⟨false, r₁, rfl, hfacing₁⟩
      | true => exact ih (h.nextFrame hframes hideal hread hnext) hfacing₁
    · exact ⟨true, r, rfl, hfacing⟩

lemma readEach (htag : AppendsTag cipher) (hframes : Numbered frames)
    (hsize : ∀ f ∈ frames, f.1.length ≤ framePlaintextLen)
    (hideal : cipher.Ideal (sealings noncePrefix 0 frames)) {sizes : List Nat} :
    ∀ {r : FrameReader} {out : Bytes}, Reading noncePrefix frames r out →
      Facing cipher noncePrefix frames r → ∀ e, (r.readEach cipher sizes).2 ≠ .failed e := by
  induction sizes with
  | nil => exact fun _ _ e hno => nomatch hno
  | cons size sizes ih =>
    intro r out h hfacing e
    have hread : ∃ bytes r', r.read cipher size = .ok (bytes, r') ∧
        Facing cipher noncePrefix frames r' := by
      obtain ⟨more, r₁, hfill, hfacing₁⟩ :=
        hfacing.fillFuel htag hframes hsize hideal (r.inner.length + 1) h
      rw [FrameReader.read, FrameReader.fill, hfill]
      cases more with
      | false => exact ⟨_, _, rfl, hfacing₁⟩
      | true => exact ⟨_, _, rfl, hfacing₁.inner, hfacing₁.more⟩
    obtain ⟨bytes, r', hread, hfacing'⟩ := hread
    have h' := (h.read hframes hideal hread).1
    rw [FrameReader.readEach, hread]
    dsimp only
    split
    · exact fun hno => nomatch hno
    · exact ih h' hfacing' e

end Facing

/-! ## Archives -/

/-- An archive holds the frames of the payload, which are numbered; or the payload is too long for the
    counter, and is refused. -/
lemma writeFrames_cases (htag : AppendsTag cipher) (noncePrefix : Bytes) (writes : List Bytes) :
    (∃ w frames, writeFrames cipher noncePrefix writes = .ok w ∧
      w.sent = sealings noncePrefix 0 frames ∧ w.inner = framesBytes cipher noncePrefix 0 frames ∧
      payload frames = writes.flatten ∧ Numbered frames ∧ frames ≠ [] ∧
      (∀ f ∈ frames, f.1.length ≤ framePlaintextLen) ∧
      writes.flatten.length < 4294967295 * framePlaintextLen) ∨
    writeFrames cipher noncePrefix writes = .error (other "backup too large") ∧
      4294967295 * framePlaintextLen ≤ writes.flatten.length := by
  rw [writeFrames]
  cases Writing.writeEach htag writes (Writing.new cipher noncePrefix) (Nat.zero_lt_succ _) with
  | inr herror =>
    obtain ⟨herror, hlong⟩ := herror
    rw [herror]
    exact Or.inr ⟨rfl, hlong⟩
  | inl hok =>
    obtain ⟨frames, w, hw, h, hshort⟩ := hok
    rw [List.nil_append] at h
    rw [hw]
    have hlength := h.length_eq
    obtain ⟨hlast, herror⟩ := h.sealBuffered htag hshort.le true
    cases Nat.lt_or_ge (frames.length + 1) 4294967296 with
    | inr hge =>
      have hle : 4294967295 * framePlaintextLen ≤ frames.length * framePlaintextLen :=
        Nat.mul_le_mul_right _ (Nat.le_of_succ_le_succ hge)
      exact Or.inr ⟨herror hge, by omega⟩
    | inl hlt =>
      obtain ⟨w', hw', -, -, -, hsent, hinner⟩ := hlast hlt
      have hcount : (inner frames ++ [(w.buf, true)]).length = frames.length + 1 := by
        rw [List.length_append, inner, List.length_map]
        rfl
      have hle : (frames.length + 1) * framePlaintextLen ≤ 4294967295 * framePlaintextLen :=
        Nat.mul_le_mul_right _ (Nat.le_of_lt_succ hlt)
      rw [Nat.succ_mul] at hle
      refine Or.inl ⟨w', _, hw', hsent, hinner, ?_, ⟨?_, ?_⟩, List.concat_ne_nil _ _, ?_, by omega⟩
      · rw [payload, List.map_append, List.flatten_append, inner, List.map_map]
        show (frames.map id).flatten ++ [w.buf].flatten = _
        rw [List.map_id, List.flatten_singleton, h.data_eq]
      · rw [hcount]
        exact hlt
      · intro i f hf
        rw [hcount]
        cases Nat.lt_or_ge i (inner frames).length with
        | inl hi =>
          rw [List.getElem?_append_left hi, inner] at hf
          obtain ⟨plain, -, rfl⟩ := List.mem_map.mp (List.mem_of_getElem? hf)
          rw [inner, List.length_map] at hi
          exact iff_of_false Bool.false_ne_true (by omega)
        | inr hi =>
          rw [List.getElem?_append_right hi] at hf
          obtain ⟨hzero, rfl⟩ := List.getElem?_eq_some_iff.mp hf
          simp only [List.length_singleton] at hzero
          rw [inner, List.length_map] at hi hzero
          exact iff_of_true (by simp only [List.getElem_singleton]) (by omega)
      · intro f hf
        cases List.mem_append.mp hf with
        | inl hf =>
          obtain ⟨plain, hplain, rfl⟩ := List.mem_map.mp hf
          exact (h.full plain hplain).le
        | inr hf =>
          cases List.mem_singleton.mp hf
          exact hshort.le

/-- A payload with fewer frames than the counter can number comes back whole, in any pieces it was
    written and is read in; and any other bytes give out a prefix of it, and end without an error only
    behind the whole. -/
theorem frames_authentic (htag : AppendsTag cipher) (noncePrefix : Bytes) (writes : List Bytes) :
    (4294967295 * framePlaintextLen ≤ writes.flatten.length →
      writeFrames cipher noncePrefix writes = .error (other "backup too large")) ∧
    (writes.flatten.length < 4294967295 * framePlaintextLen →
      ∃ w, writeFrames cipher noncePrefix writes = .ok w ∧ (cipher.Ideal w.sent →
        (∀ sizes e, ((FrameReader.new w.inner noncePrefix).readEach cipher sizes).2 ≠ .failed e) ∧
        (∀ sizes : List Nat, writes.flatten.length < sizes.countP (0 < ·) →
          (FrameReader.new w.inner noncePrefix).readEach cipher sizes =
            (writes.flatten, .finished)) ∧
        ∀ bytes sizes,
          ((FrameReader.new bytes noncePrefix).readEach cipher sizes).1 <+: writes.flatten ∧
          (((FrameReader.new bytes noncePrefix).readEach cipher sizes).2 = .finished →
            ((FrameReader.new bytes noncePrefix).readEach cipher sizes).1 = writes.flatten))) := by
  cases writeFrames_cases htag noncePrefix writes with
  | inr herror =>
    obtain ⟨herror, hlong⟩ := herror
    exact ⟨fun _ => herror, fun hshort => absurd hlong (Nat.not_le.mpr hshort)⟩
  | inl hok =>
    obtain ⟨w, frames, hw, hsent, hinner, hpayload, hframes, hsome, hsize, hshort⟩ := hok
    refine ⟨fun hlong => absurd hshort (Nat.not_lt.mpr hlong), fun _ => ⟨w, hw, fun hideal => ?_⟩⟩
    rw [hsent] at hideal
    have hany : ∀ bytes sizes,
        ((FrameReader.new bytes noncePrefix).readEach cipher sizes).1 <+: payload frames ∧
        (((FrameReader.new bytes noncePrefix).readEach cipher sizes).2 = .finished →
          ((FrameReader.new bytes noncePrefix).readEach cipher sizes).1 = payload frames) :=
      fun bytes sizes => Reading.readEach hframes hideal (Reading.new noncePrefix bytes frames)
    have hnever : ∀ sizes e,
        ((FrameReader.new w.inner noncePrefix).readEach cipher sizes).2 ≠ .failed e := by
      intro sizes
      refine Facing.readEach htag hframes hsize hideal (Reading.new noncePrefix w.inner frames) ?_
      exact ⟨hinner, fun _ => List.length_pos_iff.mpr hsome⟩
    rw [← hpayload]
    refine ⟨hnever, fun sizes hsizes => ?_, hany⟩
    obtain ⟨hpre, hend⟩ := hany w.inner sizes
    cases hending : ((FrameReader.new w.inner noncePrefix).readEach cipher sizes).2 with
    | more r =>
      have hmany := FrameReader.readEach_more hending
      have hlength := hpre.length_le
      omega
    | finished => exact Prod.ext (hend hending) hending
    | failed e => exact absurd hending (hnever sizes e)

/-- A tag of zeros, for a cipher that knows what was sealed. -/
def zeroTag (sent : List (Sealing Bytes Bytes Bytes)) : Cipher :=
  Aead.table (fun _ _ plain => plain ++ List.replicate tagLen 0) sent

lemma zeroTag_appendsTag (sent : List (Sealing Bytes Bytes Bytes)) : AppendsTag (zeroTag sent) := by
  intro nonce aad plain
  show (plain ++ List.replicate tagLen 0).length = _
  rw [List.length_append, List.length_replicate]

lemma zeroTag_ideal (sent : List (Sealing Bytes Bytes Bytes)) : (zeroTag sent).Ideal sent :=
  Aead.table_ideal (fun _ _ _ _ h => List.append_cancel_right h) sent

/-- Three bytes in two pieces come back in four reads. -/
theorem threeBytes_comeBack :
    ∃ w, writeFrames (zeroTag (sealings [] 0 [([1, 2, 3], true)])) [] [[1, 2], [3]] = .ok w ∧
      (FrameReader.new w.inner []).readEach (zeroTag (sealings [] 0 [([1, 2, 3], true)]))
        [1, 1, 1, 1] = ([1, 2, 3], .finished) := by
  obtain ⟨w, hw, hread⟩ := (frames_authentic (zeroTag_appendsTag (sealings [] 0 [([1, 2, 3], true)]))
    [] [[1, 2], [3]]).2 (by decide)
  have hsent : w.sent = sealings [] 0 [([1, 2, 3], true)] := by
    cases hw
    rfl
  refine ⟨w, hw, (hread ?_).2.1 [1, 1, 1, 1] (by decide)⟩
  rw [hsent]
  exact zeroTag_ideal _

/-- A payload of almost four pebibytes is refused. -/
theorem fourPebibytes_refused :
    ¬ ∃ w, writeFrames (zeroTag []) [] [List.replicate (4294967295 * framePlaintextLen) 0] =
      .ok w := by
  have hlength : [List.replicate (4294967295 * framePlaintextLen) (0 : UInt8)].flatten.length =
      4294967295 * framePlaintextLen := by
    rw [List.flatten_singleton, List.length_replicate]
  intro h
  obtain ⟨w, hw⟩ := h
  cases writeFrames_cases (zeroTag_appendsTag []) []
    [List.replicate (4294967295 * framePlaintextLen) 0] with
  | inl hok =>
    obtain ⟨_, _, -, -, -, -, -, -, -, hshort⟩ := hok
    omega
  | inr herror => exact absurd (herror.1.symm.trans hw) (fun hno => nomatch hno)

end Sarca.Server.Backup
