import Kanari.Address
import Kanari.Lib.Base64
import Kanari.Lib.ByteStream
import Kanari.Lib.Checked

/-!
# Framed stream encryption

The cipher and the key derivation are those of `EncryptionOps`; what is written goes to a list of
bytes, what is read comes from one.
-/

namespace Kanari

open Lib

inductive EncryptionError where
  | aeadError (text : String)
  | keyDerivationError (text : String)
  | invalidFormat (text : String)
  | invalidInput (text : String)
  | decryptionError
deriving DecidableEq

def EncryptionError.text : EncryptionError → String
  | .aeadError e => s!"Encryption error: {e}"
  | .keyDerivationError e => s!"Key derivation error: {e}"
  | .invalidFormat e => s!"Invalid format error: {e}"
  | .invalidInput e => s!"Invalid input: {e}"
  | .decryptionError => "Decryption error"

inductive ErrorKind where
  | brokenPipe
  | unexpectedEof
  | invalidData
  | invalidInput
  | other
deriving DecidableEq

structure StreamError where
  kind : ErrorKind
  text : String
deriving DecidableEq

def encryptionErrorToIo (e : EncryptionError) : StreamError :=
  let kind := match e with
    | .invalidFormat _ | .decryptionError => ErrorKind.invalidData
    | .invalidInput _ => .invalidInput
    | _ => .other
  ⟨kind, e.text⟩

def STREAM_ENCRYPTION_FORMAT_VERSION : Nat := 2
def STREAM_ENCRYPTION_FORMAT_VERSION_V1 : Nat := 1
def STREAM_ENCRYPTION_ALGORITHM : String := "AES-256-GCM-FRAMED-ARGON2ID"
def STREAM_NONCE_PREFIX_LEN : Nat := 4
def AEAD_TAG_LEN : Nat := 16
def MAX_STREAM_CHUNK_SIZE : Nat := 16 * 1024 * 1024
def MAX_PASSWORD_LEN : Nat := 1024
def MIN_SALT_LEN : Nat := 16
def MAX_SALT_LEN : Nat := 64

structure Argon2Params where
  mCost : Nat
  tCost : Nat
  pCost : Nat

def argon2ParamsForVersion (version : Nat) : Argon2Params :=
  if version = 1 then ⟨47104, 3, 1⟩ else ⟨47104, 3, 4⟩

/-- AES-256-GCM and Argon2id. -/
structure EncryptionOps where
  encrypt : (key nonce aad msg : Bytes) → Except String Bytes
  decrypt : (key nonce aad ciphertext : Bytes) → Option Bytes
  argon2 : Argon2Params → (password : String) → (salt : Bytes) → Except String Bytes

/-- A message of at most `2 ^ 36` bytes is encrypted to as many bytes and a tag; a salt of eight
bytes gives a key under the parameters of either version. -/
structure SealingEnv extends EncryptionOps where
  encrypt_ok : ∀ {key nonce} aad {msg}, key.length = 32 → nonce.length = 12 →
    msg.length ≤ 2 ^ 36 →
    ∃ ciphertext, encrypt key nonce aad msg = .ok ciphertext ∧
      ciphertext.length = msg.length + AEAD_TAG_LEN
  argon2_ok : ∀ version {password salt}, password.utf8ByteSize < 2 ^ 32 → 8 ≤ salt.length →
    salt.length < 2 ^ 32 →
    ∃ key, argon2 (argon2ParamsForVersion version) password salt = .ok key ∧ key.length = 32

/-- What was encrypted is decrypted again under the same key, nonce and associated data. -/
structure EncryptionEnv extends SealingEnv where
  decrypt_encrypt : ∀ {key nonce aad msg ciphertext}, encrypt key nonce aad msg = .ok ciphertext →
    decrypt key nonce aad ciphertext = some msg

instance : Coe SealingEnv EncryptionOps := ⟨SealingEnv.toEncryptionOps⟩

instance : Coe EncryptionEnv SealingEnv := ⟨EncryptionEnv.toSealingEnv⟩

structure StreamEncryptionHeader where
  formatVersion : Nat
  algorithm : String
  salt : String
  nonce : String
  chunkSize : Nat

def validatePassword (password : String) : Except EncryptionError Unit := do
  ensure (!password.isEmpty) (.invalidInput "Password cannot be empty")
  ensure (password.utf8ByteSize ≤ MAX_PASSWORD_LEN)
    (.invalidInput s!"Password exceeds maximum length of {MAX_PASSWORD_LEN} bytes")

def validateChunkSize (chunkSize : Nat) : Except EncryptionError Unit := do
  ensure (chunkSize ≠ 0) (.invalidInput "Stream chunk size cannot be zero")
  ensure (chunkSize ≤ MAX_STREAM_CHUNK_SIZE)
    (.invalidInput s!"Stream chunk size exceeds maximum allowed {MAX_STREAM_CHUNK_SIZE} bytes")
  ensure (chunkSize ≤ 2 ^ 32 - 1 - AEAD_TAG_LEN) (.invalidInput "Stream chunk size is too large")

def deriveKeyForVersion (E : EncryptionOps) (password : String) (salt : Bytes) (version : Nat) :
    Except EncryptionError Bytes :=
  mapError .keyDerivationError (E.argon2 (argon2ParamsForVersion version) password salt)

def cipherFromDerived (key : Bytes) : Except EncryptionError Bytes := do
  ensure (key.length = 32) (.keyDerivationError "Argon2 produced invalid key length")
  return key

def decodeSalt (salt : String) : Except EncryptionError Bytes := do
  let padded := salt.toList ++
    (if salt.utf8ByteSize % 4 ≠ 0 then List.replicate (4 - salt.utf8ByteSize % 4) '=' else [])
  let bytes ← orError ((Base64.decode salt.toList).or (Base64.decode padded))
    (.invalidFormat "Invalid salt format")
  ensure (MIN_SALT_LEN ≤ bytes.length)
    (.invalidFormat s!"Salt too short: {bytes.length} < {MIN_SALT_LEN}")
  ensure (bytes.length ≤ MAX_SALT_LEN)
    (.invalidFormat s!"Salt too long: {bytes.length} > {MAX_SALT_LEN}")
  return bytes

def streamFrameNonce (noncePrefix : Bytes) (frameIndex : Nat) : Bytes :=
  noncePrefix ++ Text.beBytes 8 frameIndex

def lastFlag (isLast : Bool) : UInt8 := if isLast then 1 else 0

def streamFrameAad (noncePrefix : Bytes) (frameIndex : Nat) (isLast : Bool) (plaintextLen : Nat) :
    Bytes :=
  STREAM_ENCRYPTION_ALGORITHM.toUTF8.toList ++ noncePrefix ++ Text.beBytes 8 frameIndex ++
    [lastFlag isLast] ++ Text.beBytes 4 plaintextLen

def writeFrame (writer : Bytes) (isLast : Bool) (frame : Bytes) : Except EncryptionError Bytes := do
  ensure (frame.length < 2 ^ 32) (.invalidInput "Encrypted stream frame is too large")
  return writer ++ [lastFlag isLast] ++ Text.beBytes 4 frame.length ++ frame

def readFrameOptional (reader : Bytes) (chunkSize : Nat) :
    Except EncryptionError (Option (Bool × Bytes)) × Bytes :=
  match reader with
  | [] => (.ok none, [])
  | flag :: reader =>
    if flag > 1 then
      (.error (.invalidFormat "Encrypted stream final-frame flag is invalid"), reader)
    else match readExact 4 reader with
      | (none, reader) =>
        (.error (.invalidFormat "Encrypted stream frame header is truncated"), reader)
      | (some lenBytes, reader) =>
        let frameLen := Text.beNat lenBytes
        if 2 ^ 64 ≤ chunkSize + AEAD_TAG_LEN then
          (.error (.invalidInput "Stream chunk size is too large"), reader)
        else if frameLen > chunkSize + AEAD_TAG_LEN ∨ frameLen < AEAD_TAG_LEN then
          (.error (.invalidFormat "Encrypted stream frame length is invalid"), reader)
        else match readExact frameLen reader with
          | (none, reader) => (.error (.invalidFormat "Encrypted stream frame is truncated"), reader)
          | (some frame, reader) => (.ok (some (flag == 1, frame)), reader)

/-! ## The writer -/

structure StreamEncryptingWriter where
  writer : Bytes
  cipher : Bytes
  noncePrefix : Bytes
  chunkSize : Nat
  buffer : Bytes
  frameIndex : Nat
  finished : Bool
  chunkSize_pos : 0 < chunkSize
  buffer_le : buffer.length ≤ chunkSize

variable {chunkSize : Nat}

lemma chunkSize_pos_of_valid (h : validateChunkSize chunkSize = .ok ()) : 0 < chunkSize := by
  obtain ⟨_, hzero, _⟩ := bind_eq_ok.mp h
  have hne : chunkSize ≠ 0 := by simpa using ensure_eq_ok.mp hzero
  omega

/-- Random bytes for the salt and the nonces, or the error of the generator. -/
structure StreamDraws where
  salt : Except String (Vector UInt8 16)
  noncePrefix : Except String (Vector UInt8 STREAM_NONCE_PREFIX_LEN)

def rngFailure (e : String) : EncryptionError := .aeadError s!"RNG failure: {e}"

def streamEncryptingWriter (E : EncryptionOps) (draws : StreamDraws) (writer : Bytes)
    (password : String) (chunkSize : Nat) :
    Except EncryptionError (StreamEncryptionHeader × StreamEncryptingWriter) := do
  validatePassword password
  match hchunk : validateChunkSize chunkSize with
  | .error e => .error e
  | .ok () =>
    let saltBytes ← mapError rngFailure draws.salt
    let keyBytes ← deriveKeyForVersion E password saltBytes.toList STREAM_ENCRYPTION_FORMAT_VERSION
    let cipher ← cipherFromDerived keyBytes
    let noncePrefix ← mapError rngFailure draws.noncePrefix
    let header : StreamEncryptionHeader :=
      { formatVersion := STREAM_ENCRYPTION_FORMAT_VERSION
        algorithm := STREAM_ENCRYPTION_ALGORITHM
        salt := String.ofList (Base64.encode saltBytes.toList)
        nonce := String.ofList (Base64.encode noncePrefix.toList)
        chunkSize := chunkSize % 2 ^ 32 }
    let w : StreamEncryptingWriter :=
      { writer := writer
        cipher := cipher
        noncePrefix := noncePrefix.toList
        chunkSize := chunkSize
        buffer := []
        frameIndex := 0
        finished := false
        chunkSize_pos := chunkSize_pos_of_valid hchunk
        buffer_le := Nat.zero_le _ }
    return (header, w)

variable {E : EncryptionOps} {isLast : Bool}

namespace StreamEncryptingWriter

def emitted (w : StreamEncryptingWriter) (writer : Bytes) (frameIndex : Nat) :
    StreamEncryptingWriter :=
  { w with writer := writer, buffer := [], frameIndex := frameIndex, buffer_le := Nat.zero_le _ }

/-- An error leaves the writer as it is at that point. -/
def writeEncryptedFrame (E : EncryptionOps) (w : StreamEncryptingWriter) (isLast : Bool) :
    Except EncryptionError Unit × StreamEncryptingWriter :=
  let aad := streamFrameAad w.noncePrefix w.frameIndex isLast w.buffer.length
  let nonce := streamFrameNonce w.noncePrefix w.frameIndex
  match E.encrypt w.cipher nonce aad w.buffer with
  | .error e => (.error (.aeadError e), w)
  | .ok ciphertext =>
    match writeFrame w.writer isLast ciphertext with
    | .error e => (.error e, w)
    | .ok writer =>
      if isLast then (.ok (), w.emitted writer w.frameIndex)
      else if w.frameIndex + 1 < 2 ^ 64 then (.ok (), w.emitted writer (w.frameIndex + 1))
      else (.error (.invalidInput "Encrypted stream frame counter overflow"),
        w.emitted writer w.frameIndex)

def room (w : StreamEncryptingWriter) (buf : Bytes) : Nat :=
  min (w.chunkSize - w.buffer.length) buf.length

def extend (w : StreamEncryptingWriter) (buf : Bytes) : StreamEncryptingWriter :=
  { w with
    buffer := w.buffer ++ buf.take (w.room buf)
    buffer_le := by
      have := w.buffer_le
      simp only [room, List.length_append, List.length_take]
      omega }

lemma writeEncryptedFrame_ok {w w' : StreamEncryptingWriter}
    (h : w.writeEncryptedFrame E isLast = (.ok (), w')) :
    ∃ writer frameIndex, w' = w.emitted writer frameIndex := by
  unfold writeEncryptedFrame at h
  dsimp only at h
  split at h
  · cases h
  · split at h
    · cases h
    · split_ifs at h <;> cases h
      · exact ⟨_, _, rfl⟩
      · exact ⟨_, _, rfl⟩

def writeLoop (E : EncryptionOps) (w : StreamEncryptingWriter) (buf : Bytes) :
    Except EncryptionError Unit × StreamEncryptingWriter :=
  if buf.isEmpty then (.ok (), w)
  else if (w.extend buf).buffer.length = w.chunkSize then
    match _hframe : (w.extend buf).writeEncryptedFrame E false with
    | (.error e, w') => (.error e, w')
    | (.ok (), w') => writeLoop E w' (buf.drop (w.room buf))
  else writeLoop E (w.extend buf) (buf.drop (w.room buf))
termination_by 2 * buf.length + (if w.buffer.length = w.chunkSize then 1 else 0)
decreasing_by
  · -- a frame empties the buffer; it was full before, or it took something
    obtain ⟨writer, frameIndex, rfl⟩ := writeEncryptedFrame_ok _hframe
    have hempty : ((w.extend buf).emitted writer frameIndex).buffer.length ≠
        ((w.extend buf).emitted writer frameIndex).chunkSize := w.chunkSize_pos.ne
    have hlen : 0 < buf.length := List.length_pos_iff.mpr (by simpa using ‹¬buf.isEmpty = true›)
    have hle := w.buffer_le
    rw [if_neg hempty, List.length_drop, room]
    split_ifs <;> omega
  · have hlen : 0 < buf.length := List.length_pos_iff.mpr (by simpa using ‹¬buf.isEmpty = true›)
    have hle := w.buffer_le
    have hnot : ¬(w.extend buf).buffer.length = (w.extend buf).chunkSize := ‹_›
    have hroom : w.buffer.length + w.room buf ≠ w.chunkSize := by
      simpa [extend, room] using hnot
    rw [if_neg hnot, List.length_drop]
    simp only [room] at hroom ⊢
    split_ifs <;> omega

def write (E : EncryptionOps) (w : StreamEncryptingWriter) (buf : Bytes) :
    Except StreamError Nat × StreamEncryptingWriter :=
  if w.finished then (.error ⟨.brokenPipe, "encrypted stream writer already finished"⟩, w)
  else match w.writeLoop E buf with
    | (.error e, w) => (.error (encryptionErrorToIo e), w)
    | (.ok (), w) => (.ok buf.length, w)

def finish (E : EncryptionOps) (w : StreamEncryptingWriter) : Except EncryptionError Bytes :=
  if w.finished then .ok w.writer
  else match w.writeEncryptedFrame E true with
    | (.error e, _) => .error e
    | (.ok (), w) => .ok w.writer

def writeEach (E : EncryptionOps) (w : StreamEncryptingWriter) :
    List Bytes → Except StreamError Unit × StreamEncryptingWriter
  | [] => (.ok (), w)
  | buf :: bufs =>
    match w.write E buf with
    | (.error e, w) => (.error e, w)
    | (.ok _, w) => w.writeEach E bufs

end StreamEncryptingWriter

/-! ## The reader -/

structure StreamDecryptingReader where
  reader : Bytes
  cipher : Bytes
  noncePrefix : Bytes
  chunkSize : Nat
  frameIndex : Nat
  plaintext : Bytes
  offset : Nat
  finishedAfterBuffer : Bool
  ended : Bool

variable {r r' : StreamDecryptingReader}

namespace StreamDecryptingReader

def new (E : EncryptionOps) (header : StreamEncryptionHeader) (reader : Bytes) (password : String) :
    Except EncryptionError StreamDecryptingReader := do
  validatePassword password
  ensure (header.formatVersion = STREAM_ENCRYPTION_FORMAT_VERSION ||
      header.formatVersion = STREAM_ENCRYPTION_FORMAT_VERSION_V1)
    (.invalidFormat s!"Unsupported stream encryption format {header.formatVersion}")
  ensure (header.algorithm = STREAM_ENCRYPTION_ALGORITHM)
    (.invalidFormat s!"Unsupported stream encryption algorithm {header.algorithm}")
  validateChunkSize header.chunkSize
  let saltBytes ← decodeSalt header.salt
  let noncePrefix ← orError (Base64.decode header.nonce.toList) (.invalidFormat "Invalid nonce base64")
  ensure (noncePrefix.length = STREAM_NONCE_PREFIX_LEN) (.invalidFormat "Invalid stream nonce length")
  let keyBytes ← deriveKeyForVersion E password saltBytes header.formatVersion
  let cipher ← cipherFromDerived keyBytes
  return {
    reader := reader
    cipher := cipher
    noncePrefix := noncePrefix
    chunkSize := header.chunkSize
    frameIndex := 0
    plaintext := []
    offset := 0
    finishedAfterBuffer := false
    ended := false }

/-- What follows the decryption of a frame: the last one must be the end of the input. -/
def frameLoaded (r : StreamDecryptingReader) (isLast : Bool) :
    Except StreamError Unit × StreamDecryptingReader :=
  if isLast then
    match readFrameOptional r.reader r.chunkSize with
    | (.error e, reader) => (.error (encryptionErrorToIo e), { r with reader := reader })
    | (.ok (some _), reader) =>
      (.error (encryptionErrorToIo
        (.invalidFormat "Encrypted stream contains trailing data after final frame")),
        { r with reader := reader })
    | (.ok none, reader) => (.ok (), { r with reader := reader, finishedAfterBuffer := true })
  else if r.frameIndex + 1 < 2 ^ 64 then (.ok (), { r with frameIndex := r.frameIndex + 1 })
  else (.error (encryptionErrorToIo
    (.invalidInput "Encrypted stream frame counter overflow")), r)

def loadNextFrame (E : EncryptionOps) (r : StreamDecryptingReader) :
    Except StreamError Unit × StreamDecryptingReader :=
  match readFrameOptional r.reader r.chunkSize with
  | (.error e, reader) => (.error (encryptionErrorToIo e), { r with reader := reader })
  | (.ok none, reader) =>
    (.error ⟨.unexpectedEof, "encrypted stream ended without final frame"⟩,
      { r with reader := reader })
  | (.ok (some (isLast, current)), reader) =>
    let r := { r with reader := reader }
    if current.length < AEAD_TAG_LEN then
      (.error (encryptionErrorToIo (.invalidFormat "Encrypted stream frame length is invalid")), r)
    else
      let plaintextLen := current.length - AEAD_TAG_LEN
      let aad := streamFrameAad r.noncePrefix r.frameIndex isLast plaintextLen
      let nonce := streamFrameNonce r.noncePrefix r.frameIndex
      match E.decrypt r.cipher nonce aad current with
      | none => (.error (encryptionErrorToIo .decryptionError), r)
      | some plaintext => frameLoaded { r with plaintext := plaintext, offset := 0 } isLast

/-- A bound on the frames that are still to be loaded. -/
def toLoad (r : StreamDecryptingReader) : Nat :=
  if r.finishedAfterBuffer then 0 else r.reader.length + 1

lemma readFrameOptional_some {reader rest frame : Bytes}
    (h : readFrameOptional reader chunkSize = (.ok (some (isLast, frame)), rest)) :
    reader = lastFlag isLast :: (Text.beBytes 4 frame.length ++ frame) ++ rest ∧
      AEAD_TAG_LEN ≤ frame.length := by
  unfold readFrameOptional at h
  cases reader with
  | nil => cases h
  | cons flag reader =>
    dsimp only at h
    split at h
    · cases h
    rename_i hflag
    split at h
    · cases h
    rename_i lenBytes rest₁ hlenBytes
    split at h
    · cases h
    split at h
    · cases h
    rename_i hbounds
    split at h
    · cases h
    rename_i body rest₂ hbody
    cases h
    obtain ⟨rfl, hfour⟩ := readExact_some hlenBytes
    obtain ⟨rfl, hlen⟩ := readExact_some hbody
    have hflag' : lastFlag (flag == 1) = flag := by
      have hle : flag.toNat ≤ 1 := UInt8.le_iff_toNat_le.mp (UInt8.not_lt.mp hflag)
      obtain hzero | hone : flag = 0 ∨ flag = 1 := by
        obtain h0 | h1 : flag.toNat = 0 ∨ flag.toNat = 1 := by omega
        · exact .inl (UInt8.toNat_inj.mp h0)
        · exact .inr (UInt8.toNat_inj.mp h1)
      · rw [hzero]
        rfl
      · rw [hone]
        rfl
    refine ⟨?_, by omega⟩
    rw [hflag', hlen, ← hfour, Text.beBytes_beNat]
    simp

lemma readFrameOptional_none {reader rest : Bytes}
    (h : readFrameOptional reader chunkSize = (.ok none, rest)) : reader = [] := by
  unfold readFrameOptional at h
  cases reader with
  | nil => rfl
  | cons flag reader =>
    dsimp only at h
    split at h
    · cases h
    split at h
    · cases h
    split at h
    · cases h
    split at h
    · cases h
    split at h <;> cases h

lemma loadNextFrame_ok (h : r.loadNextFrame E = (.ok (), r')) :
    ∃ isLast frame rest plaintext,
      r.reader = lastFlag isLast :: (Text.beBytes 4 frame.length ++ frame) ++ rest ∧
      E.decrypt r.cipher (streamFrameNonce r.noncePrefix r.frameIndex)
        (streamFrameAad r.noncePrefix r.frameIndex isLast (frame.length - AEAD_TAG_LEN)) frame =
          some plaintext ∧
      frameLoaded { r with reader := rest, plaintext := plaintext, offset := 0 } isLast =
        (.ok (), r') := by
  unfold loadNextFrame at h
  split at h
  · cases h
  · cases h
  · rename_i isLast frame rest hframe
    obtain ⟨hreader, -⟩ := readFrameOptional_some hframe
    dsimp only at h
    split_ifs at h
    · cases h
    · split at h
      · cases h
      · rename_i plaintext hdecrypt
        exact ⟨isLast, frame, rest, plaintext, hreader, hdecrypt, h⟩

lemma frameLoaded_ok (h : r.frameLoaded isLast = (.ok (), r')) :
    (isLast = true ∧ r.reader = [] ∧ ∃ reader, r' = { r with reader := reader, finishedAfterBuffer := true }) ∨
      (isLast = false ∧ r' = { r with frameIndex := r.frameIndex + 1 }) := by
  unfold frameLoaded at h
  split_ifs at h with hlast hnext
  · split at h
    · cases h
    · cases h
    · rename_i reader hnone
      cases h
      exact .inl ⟨hlast, readFrameOptional_none hnone, reader, rfl⟩
  · cases h
    exact .inr ⟨by simpa using hlast, rfl⟩
  · cases h

lemma loadNextFrame_toLoad (hopen : r.finishedAfterBuffer = false)
    (h : r.loadNextFrame E = (.ok (), r')) : r'.toLoad < r.toLoad := by
  obtain ⟨isLast, frame, rest, plaintext, hreader, -, hloaded⟩ := loadNextFrame_ok h
  have hlt : rest.length < r.reader.length := by
    rw [hreader]
    simp only [List.length_append, List.length_cons]
    omega
  obtain ⟨-, -, reader, rfl⟩ | ⟨-, rfl⟩ := frameLoaded_ok hloaded
  · simp [toLoad, hopen]
  · simpa [toLoad, hopen] using hlt

/-- The loop of `read`: is there something to return? -/
def fill (E : EncryptionOps) (r : StreamDecryptingReader) :
    Except StreamError Bool × StreamDecryptingReader :=
  if r.offset ≠ r.plaintext.length then (.ok true, r)
  else if _hfinished : r.finishedAfterBuffer then (.ok false, { r with ended := true })
  else if r.ended then (.ok false, r)
  else match _hload : r.loadNextFrame E with
    | (.error e, r') => (.error e, r')
    | (.ok (), r') => fill E r'
termination_by r.toLoad
decreasing_by exact loadNextFrame_toLoad (by simpa using _hfinished) _hload

def read (E : EncryptionOps) (r : StreamDecryptingReader) (n : Nat) :
    Except StreamError Bytes × StreamDecryptingReader :=
  if n = 0 then (.ok [], r)
  else match r.fill E with
    | (.error e, r) => (.error e, r)
    | (.ok false, r) => (.ok [], r)
    | (.ok true, r) =>
      let available := r.plaintext.drop r.offset
      let count := min available.length n
      (.ok (available.take count), { r with offset := r.offset + count })

end StreamDecryptingReader

/-! ## Whole streams -/

/-- `sizes` are those of the buffers through which the plaintext is copied; nothing if `fuel` reads
are not enough. -/
def decryptStream (E : EncryptionOps) (header : StreamEncryptionHeader) (reader : Bytes)
    (password : String) (sizes : Nat → Nat) (fuel : Nat) : Option (Except EncryptionError Bytes) :=
  match StreamDecryptingReader.new E header reader password with
  | .error e => some (.error e)
  | .ok r =>
    (copyLoop (StreamDecryptingReader.read E) sizes fuel 0 r []).map
      (mapError fun e => .aeadError e.text)

end Kanari
