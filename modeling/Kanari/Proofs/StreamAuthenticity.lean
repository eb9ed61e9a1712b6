import Kanari.Proofs.StreamRoundTrip
import Mathlib.Data.Set.Basic

/-!
# Authenticity of encrypted streams

The cipher is ideal: it opens nothing but what was sealed. A reader that gets any bytes follows the
original stream frame by frame until it fails.
-/

namespace Kanari.Proofs

open Lib

/-- The arguments of a call of `encrypt`. -/
structure Sealing where
  key : Bytes
  nonce : Bytes
  aad : Bytes
  msg : Bytes
deriving DecidableEq

/-- Opening succeeds only for what was sealed. -/
def IdealAead (E : EncryptionOps) (log : Set Sealing) : Prop :=
  ∀ key nonce aad ciphertext msg, E.decrypt key nonce aad ciphertext = some msg →
    ⟨key, nonce, aad, msg⟩ ∈ log ∧ E.encrypt key nonce aad msg = .ok ciphertext

def chunkSealing (cipher noncePrefix : Bytes) (i : Nat) (isLast : Bool) (chunk : Bytes) : Sealing :=
  ⟨cipher, streamFrameNonce noncePrefix i, streamFrameAad noncePrefix i isLast chunk.length, chunk⟩

def streamSealings (cipher noncePrefix : Bytes) (chunkSize : Nat) (plaintext : Bytes) :
    List Sealing :=
  (fullPieces chunkSize plaintext).mapIdx (fun i c => chunkSealing cipher noncePrefix i false c) ++
    [chunkSealing cipher noncePrefix (fullPieces chunkSize plaintext).length true
      (lastPiece chunkSize plaintext)]

/-- Nothing else was sealed under the key and with the nonce bytes of the stream. -/
def OnlyStream (log : Set Sealing) (cipher noncePrefix : Bytes) (chunkSize : Nat)
    (plaintext : Bytes) : Prop :=
  ∀ s ∈ log, s.key = cipher → s.nonce.take STREAM_NONCE_PREFIX_LEN = noncePrefix →
    s ∈ streamSealings cipher noncePrefix chunkSize plaintext

variable {i : Nat} {isLast : Bool}

section

variable {E : SealingEnv} {K : StreamKey} {chunks : List Bytes} {last : Bytes}

lemma streamFrameAad_isLast {n m : Nat} {isLast' : Bool}
    (h : streamFrameAad K.noncePrefix i isLast n = streamFrameAad K.noncePrefix i isLast' m) :
    isLast = isLast' := by
  unfold streamFrameAad at h
  obtain ⟨hflags, -⟩ := List.append_inj h (by simp)
  have hflag := List.append_cancel_left hflags
  cases isLast <;> cases isLast' <;> first | rfl | exact absurd hflag (by decide)

lemma mem_chunkSealings {s : Sealing} (hcount : chunks.length < 2 ^ 64) (hi : i ≤ chunks.length)
    (hs : s ∈ chunks.mapIdx (fun i c => chunkSealing K.cipher K.noncePrefix i false c) ++
      [chunkSealing K.cipher K.noncePrefix chunks.length true last])
    (hnonce : s.nonce = streamFrameNonce K.noncePrefix i) :
    (∃ c, chunks[i]? = some c ∧ s = chunkSealing K.cipher K.noncePrefix i false c) ∨
      (i = chunks.length ∧ s = chunkSealing K.cipher K.noncePrefix i true last) := by
  obtain hs | hs := List.mem_append.mp hs
  · obtain ⟨j, hj, rfl⟩ := List.mem_mapIdx.mp hs
    obtain rfl : j = i := streamFrameNonce_injective (by omega) (by omega) hnonce
    exact .inl ⟨chunks[j], List.getElem?_eq_getElem hj, rfl⟩
  · rw [List.mem_singleton] at hs
    subst hs
    obtain rfl : chunks.length = i := streamFrameNonce_injective (by omega) (by omega) hnonce
    exact .inr ⟨rfl, rfl⟩

lemma frameBytes_of_encrypt {chunk frame : Bytes}
    (h : E.encrypt K.cipher (streamFrameNonce K.noncePrefix i)
      (streamFrameAad K.noncePrefix i isLast chunk.length) chunk = .ok frame) :
    frameBytes E K i isLast chunk = lastFlag isLast :: (Text.beBytes 4 frame.length ++ frame) := by
  have hsealed : sealedChunk E K i isLast chunk = frame := by
    rw [sealedChunk, h]
    rfl
  rw [frameBytes, hsealed]

/-- All that was sealed under the key and the nonce bytes are the frames of one stream. -/
structure SealedStream (E : SealingEnv) (K : StreamKey) (chunks : List Bytes) (last : Bytes) :
    Prop where
  counted : chunks.length < 2 ^ 64
  opens : ∀ nonce aad ciphertext msg, E.decrypt K.cipher nonce aad ciphertext = some msg →
    nonce.take STREAM_NONCE_PREFIX_LEN = K.noncePrefix →
    ⟨K.cipher, nonce, aad, msg⟩ ∈
        chunks.mapIdx (fun i c => chunkSealing K.cipher K.noncePrefix i false c) ++
          [chunkSealing K.cipher K.noncePrefix chunks.length true last] ∧
      E.encrypt K.cipher nonce aad msg = .ok ciphertext

lemma SealedStream.frame (h : SealedStream E K chunks last) {n : Nat} {frame plaintext : Bytes}
    (hi : i ≤ chunks.length)
    (hopen : E.decrypt K.cipher (streamFrameNonce K.noncePrefix i)
      (streamFrameAad K.noncePrefix i isLast n) frame = some plaintext) :
    frameBytes E K i isLast plaintext = lastFlag isLast :: (Text.beBytes 4 frame.length ++ frame) ∧
      ((isLast = false ∧ chunks[i]? = some plaintext) ∨
        (isLast = true ∧ i = chunks.length ∧ plaintext = last)) := by
  have htake : (streamFrameNonce K.noncePrefix i).take STREAM_NONCE_PREFIX_LEN = K.noncePrefix := by
    rw [streamFrameNonce, ← K.noncePrefix_length, List.take_left]
  obtain ⟨hmem, hencrypt⟩ := h.opens _ _ _ _ hopen htake
  obtain ⟨c, hc, hs⟩ | ⟨rfl, hs⟩ := mem_chunkSealings h.counted hi hmem rfl
  · have haad := congrArg Sealing.aad hs
    obtain rfl : plaintext = c := congrArg Sealing.msg hs
    obtain rfl : isLast = false := streamFrameAad_isLast haad
    refine ⟨frameBytes_of_encrypt ?_, .inl ⟨rfl, hc⟩⟩
    rwa [← show _ = streamFrameAad K.noncePrefix i false plaintext.length from haad]
  · have haad := congrArg Sealing.aad hs
    obtain rfl : plaintext = last := congrArg Sealing.msg hs
    obtain rfl : isLast = true := streamFrameAad_isLast haad
    refine ⟨frameBytes_of_encrypt ?_, .inr ⟨rfl, rfl, rfl⟩⟩
    rwa [← show _ = streamFrameAad K.noncePrefix _ true plaintext.length from haad]

def sealedBytes (E : SealingEnv) (K : StreamKey) (chunks : List Bytes) (last : Bytes) : Bytes :=
  frames E K 0 chunks ++ frameBytes E K chunks.length true last

/-- The reader has got through some of the input, and all of that is as in the original stream; it
has returned `out`. -/
structure Followed (E : SealingEnv) (K : StreamKey) (chunks : List Bytes) (last input : Bytes)
    (r : StreamDecryptingReader) (out : Bytes) : Prop where
  cipher : r.cipher = K.cipher
  noncePrefix : r.noncePrefix = K.noncePrefix
  offset_le : r.offset ≤ r.plaintext.length
  place : (r.finishedAfterBuffer = true ∧ input = sealedBytes E K chunks last ∧
      out ++ r.plaintext.drop r.offset = chunks.flatten ++ last) ∨
    (r.finishedAfterBuffer = false ∧ r.ended = false ∧ ∃ done todo, chunks = done ++ todo ∧
      r.frameIndex = done.length ∧ input = frames E K 0 done ++ r.reader ∧
      out ++ r.plaintext.drop r.offset = done.flatten)

variable {input out : Bytes} {r : StreamDecryptingReader}

lemma Followed.isPrefix (h : Followed E K chunks last input r out) :
    out <+: chunks.flatten ++ last := by
  obtain ⟨-, -, hout⟩ | ⟨-, -, done, todo, rfl, -, -, hout⟩ := h.place
  · exact ⟨_, hout⟩
  · refine ⟨r.plaintext.drop r.offset ++ (todo.flatten ++ last), ?_⟩
    rw [← List.append_assoc, hout]
    simp

lemma Followed.advance (h : Followed E K chunks last input r out) {count : Nat}
    (hcount : count ≤ r.plaintext.length - r.offset) :
    Followed E K chunks last input { r with offset := r.offset + count }
      (out ++ (r.plaintext.drop r.offset).take count) := by
  have hsplit : out ++ (r.plaintext.drop r.offset).take count ++
      r.plaintext.drop (r.offset + count) = out ++ r.plaintext.drop r.offset := by
    rw [List.append_assoc, ← List.drop_drop, List.take_append_drop]
  have hle : r.offset + count ≤ r.plaintext.length := by
    have := h.offset_le
    omega
  refine ⟨h.cipher, h.noncePrefix, hle, ?_⟩
  dsimp only
  rw [hsplit]
  exact h.place

lemma Followed.load (hsealed : SealedStream E K chunks last)
    (h : Followed E K chunks last input r out) (hopen : r.finishedAfterBuffer = false)
    (hoffset : r.offset = r.plaintext.length) {r' : StreamDecryptingReader}
    (hload : r.loadNextFrame E = (.ok (), r')) : Followed E K chunks last input r' out := by
  obtain ⟨hfinished, -, -⟩ | ⟨-, hended, done, todo, hchunks, hindex, hinput, hout⟩ := h.place
  · rw [hfinished] at hopen
    cases hopen
  rw [hoffset, List.drop_length, List.append_nil] at hout
  obtain ⟨isLast, frame, rest, plaintext, hreader, hdecrypt, hloaded⟩ :=
    StreamDecryptingReader.loadNextFrame_ok hload
  rw [h.cipher, h.noncePrefix, hindex] at hdecrypt
  have hle : done.length ≤ chunks.length := by simp [hchunks]
  obtain ⟨hbytes, hchunk⟩ := hsealed.frame hle hdecrypt
  rw [← hbytes] at hreader
  obtain ⟨hlast, hrest, reader, rfl⟩ | ⟨hlast, rfl⟩ := StreamDecryptingReader.frameLoaded_ok hloaded
  · obtain ⟨rfl, -⟩ | ⟨-, hend, rfl⟩ := hchunk
    · cases hlast
    · refine ⟨h.cipher, h.noncePrefix, Nat.zero_le _, .inl ⟨rfl, ?_, ?_⟩⟩
      all_goals
        have hdone : done = chunks := by
          have htodo : todo = [] := by simpa [hchunks] using hend
          simp [hchunks, htodo]
        subst hdone
      · rw [hinput, hreader, show rest = [] from hrest, List.append_nil, hlast]
        rfl
      · rw [List.drop_zero, hout]
  · obtain ⟨-, hget⟩ | ⟨rfl, -, -⟩ := hchunk
    · refine ⟨h.cipher, h.noncePrefix, Nat.zero_le _,
        .inr ⟨hopen, hended, done ++ [plaintext], todo.tail, ?_, ?_, ?_, ?_⟩⟩
      · rw [hchunks, List.getElem?_append_right le_rfl, Nat.sub_self] at hget
        cases todo with
        | nil => cases hget
        | cons c todo =>
          cases hget
          simp [hchunks]
      · simp [hindex]
      · rw [frames_append, Nat.zero_add, hinput, hreader, hlast, List.append_assoc]
      · simp [hout]
    · cases hlast

/-- The loop fails, or finds something to return, or is at the end of the original. -/
def Filling (E : SealingEnv) (K : StreamKey) (chunks : List Bytes) (last input out : Bytes)
    (outcome : Except StreamError Bool × StreamDecryptingReader) : Prop :=
  (∃ e r', outcome = (.error e, r')) ∨
  (∃ r', outcome = (.ok true, r') ∧ Followed E K chunks last input r' out ∧
    r'.offset < r'.plaintext.length) ∨
  ∃ r', outcome = (.ok false, r') ∧ Followed E K chunks last input r' out ∧
    input = sealedBytes E K chunks last ∧ out = chunks.flatten ++ last

lemma Followed.fill (hsealed : SealedStream E K chunks last)
    (h : Followed E K chunks last input r out) :
    Filling E K chunks last input out (r.fill E) := by
  -- every frame that is loaded shortens what is left of the input
  induction hn : r.toLoad using Nat.strong_induction_on generalizing r with
  | _ n ih =>
    subst hn
    obtain hoffset | hoffset := h.offset_le.lt_or_eq
    · rw [StreamDecryptingReader.fill, if_pos hoffset.ne]
      exact .inr (.inl ⟨r, rfl, h, hoffset⟩)
    obtain ⟨hfinished, hinput, hout⟩ | ⟨hopen, hended, -⟩ := h.place
    · rw [StreamDecryptingReader.fill, if_neg (by simpa using hoffset), dif_pos hfinished]
      refine .inr (.inr ⟨_, rfl, ?_, hinput, ?_⟩)
      · exact ⟨h.cipher, h.noncePrefix, h.offset_le, .inl ⟨hfinished, hinput, hout⟩⟩
      · rwa [hoffset, List.drop_length, List.append_nil] at hout
    · rw [fill_load hoffset hopen hended]
      cases hload : r.loadNextFrame E with
      | mk outcome r' =>
        cases outcome with
        | error e => exact .inl ⟨e, r', rfl⟩
        | ok u =>
          exact ih r'.toLoad (StreamDecryptingReader.loadNextFrame_toLoad hopen hload)
            (h.load hsealed hopen hoffset hload) rfl

theorem read_guards (hsealed : SealedStream E K chunks last) :
    Guards (StreamDecryptingReader.read E) (Followed E K chunks last input)
      (fun out => input = sealedBytes E K chunks last ∧ out = chunks.flatten ++ last) := by
  intro r out n h
  unfold StreamDecryptingReader.read
  by_cases hn : n = 0
  · rw [if_pos hn]
    exact .inr ⟨[], r, rfl, by simpa using h, fun hpos => absurd hn hpos.ne'⟩
  rw [if_neg hn]
  obtain ⟨e, r', hfill⟩ | ⟨r', hfill, hr', hoffset⟩ | ⟨r', hfill, hr', hdone⟩ := h.fill hsealed
  · rw [hfill]
    exact .inl ⟨e, r', rfl⟩
  · rw [hfill]
    have hcount : min (r'.plaintext.drop r'.offset).length n ≤ r'.plaintext.length - r'.offset := by
      rw [List.length_drop]
      exact min_le_left _ _
    refine .inr ⟨_, _, rfl, hr'.advance hcount, fun hpos hnil => ?_⟩
    rw [List.take_eq_nil_iff, List.length_drop, List.drop_eq_nil_iff] at hnil
    omega
  · rw [hfill]
    exact .inr ⟨[], r', rfl, by simpa using hr', fun _ _ => hdone⟩

lemma streamEncryptingWriter_valid {draws : StreamDraws} {password : String} {chunkSize : Nat}
    {header : StreamEncryptionHeader} {w : StreamEncryptingWriter}
    (h : streamEncryptingWriter E draws [] password chunkSize = .ok (header, w)) :
    validatePassword password = .ok () ∧ validateChunkSize chunkSize = .ok () ∧
      ∃ salt noncePrefix, draws = ⟨.ok salt, .ok noncePrefix⟩ := by
  obtain ⟨_, hpassword, h⟩ := bind_eq_ok.mp h
  split at h
  · cases h
  rename_i hchunk
  obtain ⟨salt, hsalt, h⟩ := bind_eq_ok.mp h
  obtain ⟨_, _, h⟩ := bind_eq_ok.mp h
  obtain ⟨_, _, h⟩ := bind_eq_ok.mp h
  obtain ⟨noncePrefix, hnonce, _⟩ := bind_eq_ok.mp h
  rw [mapError_eq_ok] at hsalt hnonce
  refine ⟨hpassword, hchunk, salt, noncePrefix, ?_⟩
  rw [← hsalt, ← hnonce]

variable {draws : StreamDraws} {password : String} {chunkSize : Nat}
  {header : StreamEncryptionHeader} {w₀ w : StreamEncryptingWriter} {pieces : List Bytes}
  {stream : Bytes}

lemma written_stream (hnew : streamEncryptingWriter E draws [] password chunkSize = .ok (header, w₀))
    (hwrite : w₀.writeEach E pieces = (.ok (), w)) (hfinish : w.finish E = .ok stream) :
    ∃ K : StreamKey, w₀.cipher = K.cipher ∧ w₀.noncePrefix = K.noncePrefix ∧
      (fullPieces chunkSize pieces.flatten).length < 2 ^ 64 ∧
      (fullPieces chunkSize pieces.flatten).flatten ++ lastPiece chunkSize pieces.flatten =
        pieces.flatten ∧
      stream = sealedBytes E K (fullPieces chunkSize pieces.flatten)
        (lastPiece chunkSize pieces.flatten) ∧
      ∀ reader, StreamDecryptingReader.new E header reader password =
        .ok ⟨reader, K.cipher, K.noncePrefix, chunkSize, 0, [], 0, false, false⟩ := by
  obtain ⟨hpassword, hchunk, salt, noncePrefix, rfl⟩ := streamEncryptingWriter_valid hnew
  obtain ⟨header', w', K, hnew', -, hsize, hbuffer, hemits₀, -, hreader⟩ :=
    streamEncryptingWriter_ok (E := E) salt noncePrefix hpassword hchunk
  cases hnew.symm.trans hnew'
  obtain ⟨w₁, chunks, hwrite', hemits, hsize', hgiven⟩ | ⟨⟨w₁, hover⟩, -⟩ :=
    writeEach_accepts hemits₀ pieces
  · cases hwrite.symm.trans hwrite'
    have hplain : chunks.flatten ++ w.buffer = pieces.flatten := by
      simpa [given, hbuffer] using hgiven
    have hw : w.chunkSize = chunkSize := hsize'.trans hsize
    obtain ⟨hpieces, hlast⟩ := pieces_unique (hw ▸ hemits.full) (hw ▸ hemits.short)
    rw [hplain] at hpieces hlast
    rw [hpieces, hlast]
    refine ⟨K, hemits₀.cipher, hemits₀.noncePrefix, hemits.counted, hplain, ?_, hreader⟩
    rw [finish_eq hemits] at hfinish
    exact (Except.ok.inj hfinish).symm
  · cases hwrite.symm.trans hover

/-- Decrypting anything with the header and the password of a stream: the reads return a beginning
of its plaintext until one fails, and the copy fails unless the input is the stream itself. -/
theorem stream_authentic
    (hnew : streamEncryptingWriter E draws [] password chunkSize = .ok (header, w₀))
    (hwrite : w₀.writeEach E pieces = (.ok (), w)) (hfinish : w.finish E = .ok stream)
    {log : Set Sealing} (hideal : IdealAead E log)
    (honly : OnlyStream log w₀.cipher w₀.noncePrefix chunkSize pieces.flatten) (input : Bytes) :
    (∃ r, StreamDecryptingReader.new E header input password = .ok r ∧
      ∀ sizes, delivered (readEach (StreamDecryptingReader.read E) r sizes).1 <+: pieces.flatten) ∧
    ∀ sizes fuel, pieces.flatten.length < fuel →
      (input = stream ∧
        decryptStream E header input password sizes fuel = some (.ok pieces.flatten)) ∨
      ∃ e, decryptStream E header input password sizes fuel = some (.error e) := by
  obtain ⟨K, hcipher, hnonce, hcounted, hplain, rfl, hreader⟩ := written_stream hnew hwrite hfinish
  have hsealed : SealedStream E K (fullPieces chunkSize pieces.flatten)
      (lastPiece chunkSize pieces.flatten) := by
    refine ⟨hcounted, fun nonce aad ciphertext msg hopen htake => ?_⟩
    obtain ⟨hmem, hencrypt⟩ := hideal _ _ _ _ _ hopen
    rw [hcipher, hnonce] at honly
    exact ⟨honly _ hmem rfl htake, hencrypt⟩
  have hstart : Followed E K (fullPieces chunkSize pieces.flatten)
      (lastPiece chunkSize pieces.flatten) input
      ⟨input, K.cipher, K.noncePrefix, chunkSize, 0, [], 0, false, false⟩ [] :=
    ⟨rfl, rfl, le_rfl, .inr ⟨rfl, rfl, [], _, rfl, rfl, rfl, rfl⟩⟩
  constructor
  · refine ⟨_, hreader input, fun sizes => ?_⟩
    obtain ⟨r, hr⟩ := (read_guards hsealed).delivered hstart sizes
    simpa [hplain] using hr.isPrefix
  · intro sizes fuel hfuel
    have hbound : ∀ r out, Followed E K (fullPieces chunkSize pieces.flatten)
        (lastPiece chunkSize pieces.flatten) input r out → out.length ≤ pieces.flatten.length := by
      intro r out hr
      rw [← hplain]
      exact hr.isPrefix.length_le
    unfold decryptStream
    rw [hreader]
    dsimp only
    obtain ⟨e, hcopy⟩ | ⟨out, hcopy, hinput, hout⟩ :=
      (read_guards hsealed).copyLoop hbound sizes 0 hstart hfuel
    · right
      rw [hcopy]
      exact ⟨_, rfl⟩
    · left
      rw [hcopy, hout, hplain]
      exact ⟨hinput, rfl⟩

end

def opensOnly (log : List Sealing) : SealingEnv where
  encrypt := tagOnly.encrypt
  decrypt key nonce aad ciphertext :=
    let msg := ciphertext.take (ciphertext.length - AEAD_TAG_LEN)
    if ⟨key, nonce, aad, msg⟩ ∈ log ∧ ciphertext = msg ++ List.replicate AEAD_TAG_LEN 0 then some msg
    else none
  argon2 := tagOnly.argon2
  encrypt_ok := tagOnly.encrypt_ok
  argon2_ok := tagOnly.argon2_ok

lemma idealAead_opensOnly (log : List Sealing) : IdealAead (opensOnly log) {s | s ∈ log} := by
  intro key nonce aad ciphertext msg h
  simp only [opensOnly] at h
  split_ifs at h with hlog
  cases h
  exact ⟨hlog.1, congrArg Except.ok hlog.2.symm⟩

theorem stream_authentic_two_writes :
    ∃ log header stream, (∃ w₀ w, streamEncryptingWriter (opensOnly log)
        ⟨.ok (Vector.replicate 16 1), .ok (Vector.replicate 4 2)⟩ [] "secret" 2 = .ok (header, w₀) ∧
      w₀.writeEach (opensOnly log) [[1], [2, 3, 4]] = (.ok (), w) ∧
      w.finish (opensOnly log) = .ok stream) ∧
      ∀ input, input ≠ stream →
        ∃ e, decryptStream (opensOnly log) header input "secret" (fun _ => 0) 5 =
          some (.error e) := by
  let log := streamSealings (List.replicate 32 0) [2, 2, 2, 2] 2 [1, 2, 3, 4]
  obtain ⟨header, w₀, K, hnew, hnonce, hsize, hbuffer, hemits₀, hkey, -⟩ :=
    streamEncryptingWriter_ok (E := opensOnly log) (Vector.replicate 16 1) (Vector.replicate 4 2)
      (show validatePassword "secret" = .ok () by decide +kernel)
      (show validateChunkSize 2 = .ok () by decide +kernel)
  obtain ⟨w, chunks, hwrite, hemits, -, -⟩ | ⟨-, hover⟩ :=
    writeEach_accepts hemits₀ [[1], [2, 3, 4]]
  · refine ⟨log, header, _, ⟨w₀, w, hnew, hwrite, finish_eq hemits⟩, fun input hne => ?_⟩
    have honly : OnlyStream {s | s ∈ log} w₀.cipher w₀.noncePrefix 2 [[1], [2, 3, 4]].flatten := by
      have hcipher : List.replicate 32 0 = K.cipher := Except.ok.inj hkey
      intro s hs _ _
      rw [hemits₀.cipher, hemits₀.noncePrefix, ← hcipher, hnonce]
      exact hs
    obtain ⟨-, hcopy⟩ :=
      stream_authentic hnew hwrite (finish_eq hemits) (idealAead_opensOnly log) honly input
    obtain ⟨heq, -⟩ | herror := hcopy (fun _ => 0) 5 (by decide)
    · exact absurd heq hne
    · exact herror
  · rw [hsize, given, hbuffer] at hover
    exact absurd hover (by decide)

end Kanari.Proofs
