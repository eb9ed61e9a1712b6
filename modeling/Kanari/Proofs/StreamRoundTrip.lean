import Kanari.StreamEncryption
import Mathlib.Data.List.Nodup
import Mathlib.Tactic.NormNum.Pow

/-!
# Stream encryption round trip

What the writer puts out is described by the chunks alone: `frames` for those that are full, and a
last frame for the rest.
-/

namespace Kanari.Proofs

open Lib

/-- The key and the nonce bytes of one stream. -/
structure StreamKey where
  cipher : Bytes
  noncePrefix : Bytes
  cipher_length : cipher.length = 32
  noncePrefix_length : noncePrefix.length = STREAM_NONCE_PREFIX_LEN

variable {buf chunk rest : Bytes} {w : StreamEncryptingWriter} {chunks : List Bytes}
  {chunkSize : Nat} {password : String}

section

variable (E : SealingEnv) (K : StreamKey)

/-! ## Frames -/

def sealedChunk (i : Nat) (isLast : Bool) (chunk : Bytes) : Bytes :=
  (E.encrypt K.cipher (streamFrameNonce K.noncePrefix i)
    (streamFrameAad K.noncePrefix i isLast chunk.length) chunk).toOption.getD []

def frameBytes (i : Nat) (isLast : Bool) (chunk : Bytes) : Bytes :=
  lastFlag isLast ::
    (Text.beBytes 4 (sealedChunk E K i isLast chunk).length ++ sealedChunk E K i isLast chunk)

def frames : Nat → List Bytes → Bytes
  | _, [] => []
  | i, chunk :: chunks => frameBytes E K i false chunk ++ frames (i + 1) chunks

variable {E K}

lemma length_streamFrameNonce (i : Nat) : (streamFrameNonce K.noncePrefix i).length = 12 := by
  simp [streamFrameNonce, K.noncePrefix_length, STREAM_NONCE_PREFIX_LEN]

lemma streamFrameNonce_injective {i j : Nat} (hi : i < 2 ^ 64) (hj : j < 2 ^ 64)
    (h : streamFrameNonce K.noncePrefix i = streamFrameNonce K.noncePrefix j) : i = j := by
  have hbytes : Text.beBytes 8 i = Text.beBytes 8 j := List.append_cancel_left h
  have hpow : (2 : Nat) ^ 64 = 256 ^ 8 := by norm_num
  have hnat := congrArg Text.beNat hbytes
  rwa [Text.beNat_beBytes (hpow ▸ hi), Text.beNat_beBytes (hpow ▸ hj)] at hnat

lemma encrypt_sealedChunk (i : Nat) (isLast : Bool) (hchunk : chunk.length ≤ MAX_STREAM_CHUNK_SIZE) :
    E.encrypt K.cipher (streamFrameNonce K.noncePrefix i)
        (streamFrameAad K.noncePrefix i isLast chunk.length) chunk =
      .ok (sealedChunk E K i isLast chunk) ∧
    (sealedChunk E K i isLast chunk).length = chunk.length + AEAD_TAG_LEN := by
  have hshort : chunk.length ≤ 2 ^ 36 := by
    unfold MAX_STREAM_CHUNK_SIZE at hchunk
    omega
  obtain ⟨ciphertext, hencrypt, hlen⟩ := E.encrypt_ok
    (streamFrameAad K.noncePrefix i isLast chunk.length) K.cipher_length (length_streamFrameNonce i)
    hshort
  have hsealed : sealedChunk E K i isLast chunk = ciphertext := by
    rw [sealedChunk, hencrypt]
    rfl
  rw [hsealed]
  exact ⟨hencrypt, hlen⟩

lemma frames_append (i : Nat) (chunks : List Bytes) (chunk : Bytes) :
    frames E K i (chunks ++ [chunk]) =
      frames E K i chunks ++ frameBytes E K (i + chunks.length) false chunk := by
  induction chunks generalizing i with
  | nil => simp [frames]
  | cons c chunks ih =>
    rw [List.cons_append, frames, frames, ih, List.append_assoc, List.length_cons,
      Nat.add_right_comm, Nat.add_assoc]

/-! ## The writer -/

/-- The full chunks are out, and what is left over is in the buffer. -/
structure Emits (E : SealingEnv) (K : StreamKey) (w : StreamEncryptingWriter)
    (chunks : List Bytes) : Prop where
  cipher : w.cipher = K.cipher
  noncePrefix : w.noncePrefix = K.noncePrefix
  unfinished : w.finished = false
  chunkSize_le : w.chunkSize ≤ MAX_STREAM_CHUNK_SIZE
  writer : w.writer = frames E K 0 chunks
  frameIndex : w.frameIndex = chunks.length
  full : ∀ c ∈ chunks, c.length = w.chunkSize
  short : w.buffer.length < w.chunkSize
  counted : chunks.length < 2 ^ 64

def counterOverflow : EncryptionError := .invalidInput "Encrypted stream frame counter overflow"

lemma writeEncryptedFrame_eq (isLast : Bool) (hcipher : w.cipher = K.cipher)
    (hnonce : w.noncePrefix = K.noncePrefix) (hbuffer : w.buffer.length ≤ MAX_STREAM_CHUNK_SIZE) :
    w.writeEncryptedFrame E isLast =
      if isLast then
        (.ok (), w.emitted (w.writer ++ frameBytes E K w.frameIndex true w.buffer) w.frameIndex)
      else if w.frameIndex + 1 < 2 ^ 64 then
        (.ok (), w.emitted (w.writer ++ frameBytes E K w.frameIndex false w.buffer)
          (w.frameIndex + 1))
      else
        (.error counterOverflow,
          w.emitted (w.writer ++ frameBytes E K w.frameIndex false w.buffer) w.frameIndex) := by
  obtain ⟨hencrypt, hlen⟩ := encrypt_sealedChunk (E := E) (K := K) w.frameIndex isLast hbuffer
  have hsmall : (sealedChunk E K w.frameIndex isLast w.buffer).length < 2 ^ 32 := by
    rw [hlen]
    unfold MAX_STREAM_CHUNK_SIZE at hbuffer
    unfold AEAD_TAG_LEN
    omega
  have hframe : writeFrame w.writer isLast (sealedChunk E K w.frameIndex isLast w.buffer) =
      .ok (w.writer ++ frameBytes E K w.frameIndex isLast w.buffer) := by
    simp only [writeFrame, decide_eq_true hsmall, ensure_true, ok_bind, pure_eq_ok, frameBytes,
      List.append_assoc, List.cons_append, List.nil_append]
  unfold StreamEncryptingWriter.writeEncryptedFrame
  rw [hcipher, hnonce]
  simp only [hencrypt, hframe]
  cases isLast <;> rfl

lemma length_chunks {n : Nat} (h : ∀ c ∈ chunks, c.length = n) :
    chunks.flatten.length = chunks.length * n := by
  induction chunks with
  | nil => simp
  | cons c chunks ih =>
    rw [List.flatten_cons, List.length_append, h c List.mem_cons_self,
      ih fun c hc => h c (List.mem_cons_of_mem _ hc), List.length_cons]
    rw [Nat.succ_mul, Nat.add_comm]

def given (w : StreamEncryptingWriter) (chunks : List Bytes) : Bytes := chunks.flatten ++ w.buffer

lemma Emits.given_lt (h : Emits E K w chunks) : (given w chunks).length < 2 ^ 64 * w.chunkSize := by
  have hcounted : (chunks.length + 1) * w.chunkSize ≤ 2 ^ 64 * w.chunkSize :=
    Nat.mul_le_mul_right _ h.counted
  have hshort := h.short
  rw [given, List.length_append, length_chunks h.full]
  rw [Nat.add_mul] at hcounted
  omega

lemma room_pos (hbuf : buf ≠ []) (hshort : w.buffer.length < w.chunkSize) : 0 < w.room buf := by
  have hlen := List.length_pos_iff.mpr hbuf
  unfold StreamEncryptingWriter.room
  omega

lemma frame_emits (h : Emits E K w chunks) (hfull : (w.extend buf).buffer.length = w.chunkSize) :
    (∃ w', (w.extend buf).writeEncryptedFrame E false = (.ok (), w') ∧
      Emits E K w' (chunks ++ [(w.extend buf).buffer]) ∧ w'.buffer = [] ∧
        w'.chunkSize = w.chunkSize) ∨
    (∃ w', (w.extend buf).writeEncryptedFrame E false = (.error counterOverflow, w')) ∧
      chunks.length + 1 = 2 ^ 64 := by
  have hbuffer : (w.extend buf).buffer.length ≤ MAX_STREAM_CHUNK_SIZE := hfull ▸ h.chunkSize_le
  have hindex : (w.extend buf).frameIndex = chunks.length := h.frameIndex
  have hwriter : (w.extend buf).writer = frames E K 0 chunks := h.writer
  rw [writeEncryptedFrame_eq (w := w.extend buf) (K := K) false h.cipher h.noncePrefix hbuffer,
    hindex, hwriter]
  have hcounted := h.counted
  by_cases hnext : chunks.length + 1 < 2 ^ 64
  · left
    simp only [if_neg Bool.false_ne_true, if_pos hnext]
    refine ⟨_, rfl, ?_, rfl, rfl⟩
    constructor
    · exact h.cipher
    · exact h.noncePrefix
    · exact h.unfinished
    · exact h.chunkSize_le
    · rw [frames_append, Nat.zero_add]
      rfl
    · simp [StreamEncryptingWriter.emitted]
    · intro c hc
      obtain hc | hc := List.mem_append.mp hc
      · exact h.full c hc
      · rw [List.mem_singleton.mp hc]
        exact hfull
    · exact w.chunkSize_pos
    · simpa using hnext
  · right
    simp only [if_neg Bool.false_ne_true, if_neg hnext]
    exact ⟨⟨_, rfl⟩, by omega⟩

lemma writeLoop_full (hbuf : buf ≠ []) (hfull : (w.extend buf).buffer.length = w.chunkSize) :
    w.writeLoop E buf =
      match (w.extend buf).writeEncryptedFrame E false with
      | (.error e, w') => (.error e, w')
      | (.ok (), w') => w'.writeLoop E (buf.drop (w.room buf)) := by
  rw [StreamEncryptingWriter.writeLoop, if_neg (by simpa using hbuf), if_pos hfull]
  split
  · rename_i hframe
    rw [hframe]
  · rename_i hframe
    rw [hframe]

/-- What becomes of a writer that is given `more`: the counter suffices, or it does not. -/
def Accepts (E : SealingEnv) (K : StreamKey) (w : StreamEncryptingWriter) (chunks : List Bytes)
    (more : Bytes) {ε : Type} (overflow : ε) (outcome : Except ε Unit × StreamEncryptingWriter) :
    Prop :=
  (∃ w' chunks', outcome = (.ok (), w') ∧ Emits E K w' chunks' ∧ w'.chunkSize = w.chunkSize ∧
    given w' chunks' = given w chunks ++ more) ∨
  ((∃ w', outcome = (.error overflow, w')) ∧
    2 ^ 64 * w.chunkSize ≤ (given w chunks ++ more).length)

lemma writeLoop_accepts (h : Emits E K w chunks) (buf : Bytes) :
    Accepts E K w chunks buf counterOverflow (w.writeLoop E buf) := by
  -- every iteration takes something from the input
  induction hn : buf.length using Nat.strong_induction_on generalizing w chunks buf with
  | _ n ih =>
    subst hn
    by_cases hbuf : buf = []
    · subst hbuf
      rw [StreamEncryptingWriter.writeLoop]
      exact .inl ⟨w, chunks, rfl, h, rfl, by simp⟩
    have hroom := room_pos hbuf h.short
    have hrest : (buf.drop (w.room buf)).length < buf.length := by
      have hlen := List.length_pos_iff.mpr hbuf
      rw [List.length_drop]
      omega
    have htaken : given (w.extend buf) chunks ++ buf.drop (w.room buf) = given w chunks ++ buf := by
      simp [given, StreamEncryptingWriter.extend]
    by_cases hfull : (w.extend buf).buffer.length = w.chunkSize
    · rw [writeLoop_full hbuf hfull]
      obtain ⟨w', hframe, hemits, hempty, hsize⟩ | ⟨⟨w', hframe⟩, hlast⟩ := frame_emits h hfull
      · rw [hframe]
        have hgiven : given w' (chunks ++ [(w.extend buf).buffer]) = given (w.extend buf) chunks := by
          simp [given, hempty]
        have hloop := ih _ hrest hemits (buf.drop (w.room buf)) rfl
        unfold Accepts at hloop ⊢
        rwa [hgiven, htaken, hsize] at hloop
      · right
        refine ⟨⟨w', by rw [hframe]⟩, ?_⟩
        have hchunks := length_chunks h.full
        rw [← htaken, given, ← hlast, Nat.add_mul]
        simp only [List.length_append, hchunks, hfull]
        omega
    · rw [StreamEncryptingWriter.writeLoop, if_neg (by simpa using hbuf), if_neg hfull]
      have hemits : Emits E K (w.extend buf) chunks :=
        ⟨h.cipher, h.noncePrefix, h.unfinished, h.chunkSize_le, h.writer, h.frameIndex, h.full,
          lt_of_le_of_ne (w.extend buf).buffer_le hfull, h.counted⟩
      have hloop := ih _ hrest hemits (buf.drop (w.room buf)) rfl
      unfold Accepts at hloop ⊢
      rwa [htaken] at hloop

theorem writeEach_accepts (h : Emits E K w chunks) (pieces : List Bytes) :
    Accepts E K w chunks pieces.flatten (encryptionErrorToIo counterOverflow)
      (w.writeEach E pieces) := by
  induction pieces generalizing w chunks with
  | nil => exact .inl ⟨w, chunks, rfl, h, rfl, by simp⟩
  | cons buf pieces ih =>
    unfold StreamEncryptingWriter.writeEach StreamEncryptingWriter.write
    rw [if_neg (by simp [h.unfinished])]
    obtain ⟨w', chunks', hloop, hemits, hsize, hgiven⟩ | ⟨⟨w', hloop⟩, hlen⟩ := writeLoop_accepts h buf
    · have hrest := ih hemits
      simp only [hloop]
      unfold Accepts at hrest ⊢
      rwa [hgiven, hsize, List.append_assoc, ← List.flatten_cons] at hrest
    · right
      refine ⟨⟨w', by simp only [hloop]⟩, ?_⟩
      rw [List.flatten_cons, ← List.append_assoc, List.length_append]
      omega

lemma finish_eq (h : Emits E K w chunks) :
    w.finish E =
      .ok (frames E K 0 chunks ++ frameBytes E K chunks.length true w.buffer) := by
  have hbuffer : w.buffer.length ≤ MAX_STREAM_CHUNK_SIZE := h.short.le.trans h.chunkSize_le
  unfold StreamEncryptingWriter.finish
  rw [if_neg (by simp [h.unfinished]), writeEncryptedFrame_eq (K := K) true h.cipher h.noncePrefix hbuffer,
    h.frameIndex, h.writer]
  rfl

/-! ## Opening a stream -/

lemma valid_chunkSize (h : validateChunkSize chunkSize = .ok ()) :
    0 < chunkSize ∧ chunkSize ≤ MAX_STREAM_CHUNK_SIZE := by
  refine ⟨chunkSize_pos_of_valid h, ?_⟩
  obtain ⟨_, _, h⟩ := bind_eq_ok.mp h
  obtain ⟨_, hmax, _⟩ := bind_eq_ok.mp h
  simpa using ensure_eq_ok.mp hmax

lemma valid_password (h : validatePassword password = .ok ()) : password.utf8ByteSize < 2 ^ 32 := by
  obtain ⟨_, _, h⟩ := bind_eq_ok.mp h
  have hle : password.utf8ByteSize ≤ MAX_PASSWORD_LEN := by simpa using ensure_eq_ok.mp h
  unfold MAX_PASSWORD_LEN at hle
  omega

lemma derive_ok {salt : Bytes} (version : Nat) (hpassword : validatePassword password = .ok ())
    (hsalt : salt.length = 16) :
    ∃ key, deriveKeyForVersion E password salt version = .ok key ∧ key.length = 32 ∧
      cipherFromDerived key = .ok key := by
  obtain ⟨key, hkey, hlen⟩ := E.argon2_ok version
    (valid_password hpassword) (show 8 ≤ salt.length by omega) (by omega)
  exact ⟨key, by rw [deriveKeyForVersion, hkey]; rfl, hlen, by simp [cipherFromDerived, hlen]⟩

lemma decodeSalt_encode {salt : Bytes} (hsalt : salt.length = 16) :
    decodeSalt (String.ofList (Base64.encode salt)) = .ok salt := by
  unfold decodeSalt
  rw [String.toList_ofList, Base64.decode_encode]
  simp [orError, hsalt, MIN_SALT_LEN, MAX_SALT_LEN]

lemma streamEncryptingWriter_ok (salt : Vector UInt8 16)
    (noncePrefix : Vector UInt8 STREAM_NONCE_PREFIX_LEN)
    (hpassword : validatePassword password = .ok ()) (hchunk : validateChunkSize chunkSize = .ok ()) :
    ∃ header w K, streamEncryptingWriter E ⟨.ok salt, .ok noncePrefix⟩ [] password chunkSize =
        .ok (header, w) ∧
      K.noncePrefix = noncePrefix.toList ∧ w.chunkSize = chunkSize ∧ w.buffer = [] ∧
      Emits E K w [] ∧
      deriveKeyForVersion E password salt.toList STREAM_ENCRYPTION_FORMAT_VERSION = .ok K.cipher ∧
      ∀ reader, StreamDecryptingReader.new E header reader password =
        .ok ⟨reader, K.cipher, K.noncePrefix, chunkSize, 0, [], 0, false, false⟩ := by
  obtain ⟨hpos, hmax⟩ := valid_chunkSize hchunk
  have hsalt : salt.toList.length = 16 := by simp
  obtain ⟨key, hderive, hkey, hcipher⟩ :=
    derive_ok (E := E) STREAM_ENCRYPTION_FORMAT_VERSION hpassword hsalt
  have hmod : chunkSize % 2 ^ 32 = chunkSize := by
    unfold MAX_STREAM_CHUNK_SIZE at hmax
    omega
  let K : StreamKey := ⟨key, noncePrefix.toList, hkey, by simp⟩
  let header : StreamEncryptionHeader :=
    ⟨STREAM_ENCRYPTION_FORMAT_VERSION, STREAM_ENCRYPTION_ALGORITHM,
      String.ofList (Base64.encode salt.toList), String.ofList (Base64.encode noncePrefix.toList),
      chunkSize % 2 ^ 32⟩
  let w : StreamEncryptingWriter :=
    ⟨[], key, noncePrefix.toList, chunkSize, [], 0, false, hpos, Nat.zero_le _⟩
  refine ⟨header, w, K, ?_, rfl, rfl, rfl, ?_, hderive, fun reader => ?_⟩
  · unfold streamEncryptingWriter
    rw [hpassword, ok_bind]
    split
    · rename_i hfail
      rw [hchunk] at hfail
      cases hfail
    · simp only [mapError, ok_bind, hderive, hcipher]
      rfl
  · exact ⟨rfl, rfl, rfl, hmax, rfl, rfl, fun c hc => absurd hc List.not_mem_nil, hpos, by simp⟩
  · have hheader : header.chunkSize = chunkSize := hmod
    unfold StreamDecryptingReader.new
    rw [hpassword, ok_bind, hheader, hchunk]
    simp only [header, decodeSalt_encode hsalt, String.toList_ofList, Base64.decode_encode, orError,
      ok_bind, hderive, hcipher]
    simp [K, STREAM_ENCRYPTION_FORMAT_VERSION]

/-! ## The reader -/

lemma readFrameOptional_frame (i : Nat) (isLast : Bool) (hchunk : chunk.length ≤ chunkSize)
    (hsize : chunkSize ≤ MAX_STREAM_CHUNK_SIZE) (rest : Bytes) :
    readFrameOptional (frameBytes E K i isLast chunk ++ rest) chunkSize =
      (.ok (some (isLast, sealedChunk E K i isLast chunk)), rest) := by
  obtain ⟨-, hlen⟩ := encrypt_sealedChunk (E := E) (K := K) i isLast (hchunk.trans hsize)
  have hsmall : (sealedChunk E K i isLast chunk).length < 256 ^ 4 := by
    rw [hlen]
    unfold MAX_STREAM_CHUNK_SIZE at hsize
    unfold AEAD_TAG_LEN
    omega
  have hflag : ¬lastFlag isLast > 1 := by cases isLast <;> decide
  have hlast : (lastFlag isLast == 1) = isLast := by cases isLast <;> rfl
  have hbounds : ¬(chunk.length + AEAD_TAG_LEN > chunkSize + AEAD_TAG_LEN ∨
      chunk.length + AEAD_TAG_LEN < AEAD_TAG_LEN) := by omega
  have hfits : ¬2 ^ 64 ≤ chunkSize + AEAD_TAG_LEN := by
    unfold MAX_STREAM_CHUNK_SIZE at hsize
    unfold AEAD_TAG_LEN
    omega
  unfold readFrameOptional frameBytes
  rw [List.cons_append, List.append_assoc]
  dsimp only
  rw [if_neg hflag, readExact_append (Text.length_beBytes 4 _)]
  dsimp only
  rw [Text.beNat_beBytes hsmall, if_neg hfits, hlen, if_neg hbounds, readExact_append hlen]
  simp only [hlast]

end

section

variable {E : EncryptionEnv} {K : StreamKey}

/-- The reader is at some place of a stream, with `rest` of the plaintext to come: frames are still
to be loaded, or the last one is in the buffer. -/
structure Unread (E : EncryptionEnv) (K : StreamKey) (r : StreamDecryptingReader) (rest : Bytes) :
    Prop where
  cipher : r.cipher = K.cipher
  noncePrefix : r.noncePrefix = K.noncePrefix
  chunkSize_pos : 0 < r.chunkSize
  chunkSize_le : r.chunkSize ≤ MAX_STREAM_CHUNK_SIZE
  offset_le : r.offset ≤ r.plaintext.length
  left : (r.finishedAfterBuffer = true ∧ rest = r.plaintext.drop r.offset) ∨
    (r.finishedAfterBuffer = false ∧ r.ended = false ∧ ∃ chunks last,
      r.reader = frames E K r.frameIndex chunks ++
        frameBytes E K (r.frameIndex + chunks.length) true last ∧
      (∀ c ∈ chunks, c.length = r.chunkSize) ∧ last.length ≤ r.chunkSize ∧
      r.frameIndex + chunks.length < 2 ^ 64 ∧
      rest = r.plaintext.drop r.offset ++ (chunks.flatten ++ last))

section

variable {r : StreamDecryptingReader}

lemma loadNextFrame_frame (hcipher : r.cipher = K.cipher) (hnonce : r.noncePrefix = K.noncePrefix)
    (hsize : r.chunkSize ≤ MAX_STREAM_CHUNK_SIZE) {isLast : Bool}
    (hchunk : chunk.length ≤ r.chunkSize)
    (hreader : r.reader = frameBytes E K r.frameIndex isLast chunk ++ rest) :
    r.loadNextFrame E =
      StreamDecryptingReader.frameLoaded { r with reader := rest, plaintext := chunk, offset := 0 }
        isLast := by
  obtain ⟨hencrypt, hlen⟩ :=
    encrypt_sealedChunk (E := E) (K := K) r.frameIndex isLast (hchunk.trans hsize)
  have hdecrypt := E.decrypt_encrypt hencrypt
  unfold StreamDecryptingReader.loadNextFrame
  rw [hreader, readFrameOptional_frame r.frameIndex isLast hchunk hsize rest]
  dsimp only
  rw [if_neg (by omega), hlen, Nat.add_sub_cancel, hcipher, hnonce, hdecrypt]

lemma fill_load {E : EncryptionOps} (hoffset : r.offset = r.plaintext.length)
    (hfinished : r.finishedAfterBuffer = false) (hended : r.ended = false) :
    r.fill E =
      match r.loadNextFrame E with
      | (.error e, r') => (.error e, r')
      | (.ok (), r') => r'.fill E := by
  rw [StreamDecryptingReader.fill, if_neg (by simpa using hoffset), dif_neg (by simp [hfinished]),
    if_neg (by simp [hended])]
  split
  · rename_i hload
    rw [hload]
  · rename_i hload
    rw [hload]

def Filled (E : EncryptionEnv) (K : StreamKey) (rest : Bytes)
    (outcome : Except StreamError Bool × StreamDecryptingReader) : Prop :=
  ∃ r', outcome = (.ok (!rest.isEmpty), r') ∧ Unread E K r' rest ∧
    (rest ≠ [] → r'.offset < r'.plaintext.length)

lemma fill_buffered (h : Unread E K r rest) (hoffset : r.offset < r.plaintext.length) :
    Filled E K rest (r.fill E) := by
  refine ⟨r, ?_, h, fun _ => hoffset⟩
  have hdrop : r.plaintext.drop r.offset ≠ [] := by
    rw [Ne, List.drop_eq_nil_iff]
    omega
  have hrest : rest ≠ [] := by
    obtain ⟨-, rfl⟩ | ⟨-, -, chunks, last, -, -, -, -, rfl⟩ := h.left
    · exact hdrop
    · exact List.append_ne_nil_of_left_ne_nil hdrop _
  rw [StreamDecryptingReader.fill, if_pos hoffset.ne]
  simp [hrest]

lemma fill_finished (h : Unread E K r rest) (hfinished : r.finishedAfterBuffer = true) :
    Filled E K rest (r.fill E) := by
  obtain hoffset | hoffset := h.offset_le.lt_or_eq
  · exact fill_buffered h hoffset
  have hrest : rest = [] := by
    obtain ⟨-, rfl⟩ | ⟨hopen, -⟩ := h.left
    · simp [hoffset]
    · rw [hfinished] at hopen
      cases hopen
  subst hrest
  refine ⟨{ r with ended := true }, ?_, ?_, fun hne => absurd rfl hne⟩
  · rw [StreamDecryptingReader.fill, if_neg (by simpa using hoffset), dif_pos hfinished]
    rfl
  · exact ⟨h.cipher, h.noncePrefix, h.chunkSize_pos, h.chunkSize_le, h.offset_le,
      .inl ⟨hfinished, by simp [hoffset]⟩⟩

lemma fill_unread (h : Unread E K r rest) : Filled E K rest (r.fill E) := by
  obtain hoffset | hoffset := h.offset_le.lt_or_eq
  · exact fill_buffered h hoffset
  obtain ⟨hfinished, -⟩ | ⟨hfinished, hended, chunks, last, hreader, hfull, hlast, hindex, hrest⟩ :=
    h.left
  · exact fill_finished h hfinished
  rw [hoffset, List.drop_length, List.nil_append] at hrest
  rw [fill_load hoffset hfinished hended]
  cases chunks with
  | nil =>
    -- the last frame: nothing may follow it
    have hframe : r.reader = frameBytes E K r.frameIndex true last ++ [] := by
      simpa [frames] using hreader
    rw [loadNextFrame_frame h.cipher h.noncePrefix h.chunkSize_le hlast hframe]
    exact fill_finished ⟨h.cipher, h.noncePrefix, h.chunkSize_pos, h.chunkSize_le, Nat.zero_le _,
      .inl ⟨rfl, hrest⟩⟩ rfl
  | cons c chunks =>
    have hc : c.length = r.chunkSize := hfull c List.mem_cons_self
    have hframe : r.reader = frameBytes E K r.frameIndex false c ++
        (frames E K (r.frameIndex + 1) chunks ++
          frameBytes E K (r.frameIndex + 1 + chunks.length) true last) := by
      rw [hreader, frames, List.append_assoc, List.length_cons, Nat.add_right_comm, Nat.add_assoc]
    have hnext : r.frameIndex + 1 + chunks.length < 2 ^ 64 := by
      rw [List.length_cons] at hindex
      omega
    rw [loadNextFrame_frame h.cipher h.noncePrefix h.chunkSize_le hc.le hframe]
    unfold StreamDecryptingReader.frameLoaded
    rw [if_neg Bool.false_ne_true, if_pos (by dsimp only; omega)]
    refine fill_buffered ?_ (by simpa [hc] using h.chunkSize_pos)
    refine ⟨h.cipher, h.noncePrefix, h.chunkSize_pos, h.chunkSize_le, Nat.zero_le _, .inr ?_⟩
    refine ⟨hfinished, hended, chunks, last, rfl, ?_, hlast, hnext, ?_⟩
    · exact fun c' hc' => hfull c' (List.mem_cons_of_mem _ hc')
    · rw [hrest, List.flatten_cons, List.append_assoc]
      rfl

end

lemma Unread.advance {r : StreamDecryptingReader} (h : Unread E K r rest) {count : Nat}
    (hcount : count ≤ (r.plaintext.drop r.offset).length) :
    (r.plaintext.drop r.offset).take count = rest.take count ∧
      Unread E K { r with offset := r.offset + count } (rest.drop count) := by
  have hoffset : r.offset + count ≤ r.plaintext.length := by
    have hle := h.offset_le
    rw [List.length_drop] at hcount
    omega
  obtain ⟨hfinished, rfl⟩ | ⟨hfinished, hended, chunks, last, hreader, hfull, hlast, hindex, rfl⟩ :=
    h.left
  · refine ⟨rfl, h.cipher, h.noncePrefix, h.chunkSize_pos, h.chunkSize_le, hoffset, .inl ?_⟩
    exact ⟨hfinished, List.drop_drop⟩
  · refine ⟨(List.take_append_of_le_length hcount).symm, h.cipher, h.noncePrefix, h.chunkSize_pos,
      h.chunkSize_le, hoffset, .inr ?_⟩
    refine ⟨hfinished, hended, chunks, last, hreader, hfull, hlast, hindex, ?_⟩
    rw [List.drop_append_of_le_length hcount, List.drop_drop]

theorem read_serves : Serves (StreamDecryptingReader.read E) (Unread E K) := by
  intro r rest n h
  unfold StreamDecryptingReader.read
  by_cases hn : n = 0
  · refine ⟨0, r, ?_, h, Nat.zero_le n, fun hpos => absurd hn hpos.ne'⟩
    rw [if_pos hn, List.take_zero]
  rw [if_neg hn]
  obtain ⟨r', hfill, hunread, hoffset⟩ := fill_unread h
  rw [hfill]
  by_cases hrest : rest = []
  · subst hrest
    exact ⟨0, r', rfl, hunread, Nat.zero_le n, fun _ hne => absurd rfl hne⟩
  have hsome : (!rest.isEmpty) = true := by simpa using hrest
  rw [hsome]
  obtain ⟨htake, hadvance⟩ := hunread.advance (min_le_left _ n)
  refine ⟨min (r'.plaintext.drop r'.offset).length n, _, ?_, hadvance, min_le_right _ _, ?_⟩
  · dsimp only
    rw [htake]
  · intro hpos _
    have hlt := hoffset hrest
    rw [List.length_drop]
    omega

/-! ## Whole streams -/

def frameNonces (noncePrefix : Bytes) (n : Nat) : List Bytes :=
  (List.range n).map (streamFrameNonce noncePrefix)

lemma nodup_frameNonces {n : Nat} (hn : n ≤ 2 ^ 64) : (frameNonces K.noncePrefix n).Nodup := by
  refine List.Nodup.map_on ?_ List.nodup_range
  intro i hi j hj heq
  rw [List.mem_range] at hi hj
  exact streamFrameNonce_injective (by omega) (by omega) heq

/-- A plaintext whose full chunks the frame counter can count, written in any pieces: the reader
with the returned header serves it for all buffer sizes, and so does the copy. The stream is one
frame per chunk, each under a nonce of its own. -/
theorem stream_round_trip (salt : Vector UInt8 16)
    (noncePrefix : Vector UInt8 STREAM_NONCE_PREFIX_LEN) {password : String} {chunkSize : Nat}
    (hpassword : validatePassword password = .ok ())
    (hchunk : validateChunkSize chunkSize = .ok ()) (pieces : List Bytes)
    (hlen : pieces.flatten.length < 2 ^ 64 * chunkSize) :
    ∃ header w₀ w out,
      streamEncryptingWriter E ⟨.ok salt, .ok noncePrefix⟩ [] password chunkSize = .ok (header, w₀) ∧
      w₀.writeEach E pieces = (.ok (), w) ∧ w.finish E = .ok out ∧
      (∃ r, StreamDecryptingReader.new E header out password = .ok r ∧
        Delivers (StreamDecryptingReader.read E) r pieces.flatten) ∧
      (∀ sizes fuel, pieces.flatten.length < fuel →
        decryptStream E header out password sizes fuel = some (.ok pieces.flatten)) ∧
      ∃ K chunks last, K.cipher = w₀.cipher ∧ K.noncePrefix = noncePrefix.toList ∧
        out = frames E K 0 chunks ++ frameBytes E K chunks.length true last ∧
        chunks.flatten ++ last = pieces.flatten ∧
        (frameNonces K.noncePrefix (chunks.length + 1)).Nodup := by
  obtain ⟨header, w₀, K, hnew, hnonce, hsize, hbuffer, hemits₀, -, hreader⟩ :=
    streamEncryptingWriter_ok (E := E) salt noncePrefix hpassword hchunk
  have hgiven₀ : given w₀ [] ++ pieces.flatten = pieces.flatten := by simp [given, hbuffer]
  obtain ⟨w, chunks, hwrite, hemits, hsize', hgiven⟩ | ⟨-, hover⟩ := writeEach_accepts hemits₀ pieces
  · rw [hgiven₀] at hgiven
    obtain ⟨hpos, hmax⟩ := valid_chunkSize hchunk
    have hw : w.chunkSize = chunkSize := hsize'.trans hsize
    have hunread : Unread E K ⟨frames E K 0 chunks ++ frameBytes E K chunks.length true w.buffer,
        K.cipher, K.noncePrefix, chunkSize, 0, [], 0, false, false⟩ pieces.flatten := by
      refine ⟨rfl, rfl, hpos, hmax, le_rfl, .inr ⟨rfl, rfl, chunks, w.buffer, ?_, ?_, ?_, ?_, ?_⟩⟩
      · rw [Nat.zero_add]
      · exact hw ▸ hemits.full
      · exact hw ▸ hemits.short.le
      · rw [Nat.zero_add]
        exact hemits.counted
      · exact hgiven.symm
    refine ⟨header, w₀, w, _, hnew, hwrite, finish_eq hemits, ⟨_, hreader _, ?_⟩, ?_, ?_⟩
    · exact read_serves.delivers hunread
    · intro sizes fuel hfuel
      unfold decryptStream
      rw [hreader]
      dsimp only
      rw [read_serves.copyLoop sizes 0 [] hunread hfuel]
      rfl
    · exact ⟨K, chunks, w.buffer, hemits₀.cipher.symm, hnonce, rfl, hgiven,
        nodup_frameNonces hemits.counted⟩
  · rw [hgiven₀, hsize] at hover
    omega

end

def tagOnly : EncryptionEnv where
  encrypt _ _ _ msg := .ok (msg ++ List.replicate AEAD_TAG_LEN 0)
  decrypt _ _ _ ciphertext := some (ciphertext.take (ciphertext.length - AEAD_TAG_LEN))
  argon2 _ _ _ := .ok (List.replicate 32 0)
  decrypt_encrypt := by
    intro key nonce aad msg ciphertext h
    cases h
    simp
  encrypt_ok := by
    intro key nonce aad msg _ _ _
    exact ⟨_, rfl, by simp⟩
  argon2_ok := by
    intro version password salt _ _ _
    exact ⟨_, rfl, by simp⟩

theorem stream_round_trip_two_writes :
    ∃ header out, (∃ w₀ w, streamEncryptingWriter tagOnly
        ⟨.ok (Vector.replicate 16 1), .ok (Vector.replicate 4 2)⟩ [] "secret" 2 = .ok (header, w₀) ∧
      w₀.writeEach tagOnly [[1], [2, 3, 4]] = (.ok (), w) ∧ w.finish tagOnly = .ok out) ∧
      decryptStream tagOnly header out "secret" (fun _ => 0) 5 = some (.ok [1, 2, 3, 4]) := by
  obtain ⟨header, w₀, w, out, hnew, hwrite, hfinish, -, hcopy, -⟩ :=
    stream_round_trip (E := tagOnly) (Vector.replicate 16 1) (Vector.replicate 4 2)
      (show validatePassword "secret" = .ok () by decide +kernel)
      (show validateChunkSize 2 = .ok () by decide +kernel) [[1], [2, 3, 4]] (by decide)
  exact ⟨header, out, ⟨w₀, w, hnew, hwrite, hfinish⟩, hcopy (fun _ => 0) 5 (by decide)⟩

/-- With chunks of one byte the counter runs out at `2 ^ 64` bytes, here in four writes. -/
theorem stream_counter_exhausted :
    ∃ header w₀, streamEncryptingWriter tagOnly
        ⟨.ok (Vector.replicate 16 1), .ok (Vector.replicate 4 2)⟩ [] "secret" 1 = .ok (header, w₀) ∧
      (w₀.writeEach tagOnly (List.replicate 4 (List.replicate (2 ^ 62) 0))).1 =
        .error ⟨.invalidInput, "Invalid input: Encrypted stream frame counter overflow"⟩ := by
  obtain ⟨header, w₀, K, hnew, -, hsize, hbuffer, hemits₀, -, -⟩ :=
    streamEncryptingWriter_ok (E := tagOnly) (Vector.replicate 16 1) (Vector.replicate 4 2)
      (show validatePassword "secret" = .ok () by decide +kernel)
      (show validateChunkSize 1 = .ok () by decide +kernel)
  refine ⟨header, w₀, hnew, ?_⟩
  have hlen : (List.replicate 4 (List.replicate (2 ^ 62) (0 : UInt8))).flatten.length = 2 ^ 64 := by
    rw [List.flatten_replicate_replicate, List.length_replicate]
    norm_num
  obtain ⟨w, chunks, -, hemits, hsize', hgiven⟩ | ⟨⟨w, hover⟩, -⟩ :=
    writeEach_accepts hemits₀ (List.replicate 4 (List.replicate (2 ^ 62) 0))
  · have hlt := hemits.given_lt
    rw [hgiven, hsize', hsize, given, hbuffer, List.flatten_nil, List.nil_append, List.nil_append,
      hlen] at hlt
    omega
  · rw [hover]
    rfl

end Kanari.Proofs
