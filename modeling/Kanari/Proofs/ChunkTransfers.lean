import Kanari.ChunkTransfer

/-!
# Chunk transfers

What one chunk can do to the transfers of a node, and from it what holds in every run.
-/

namespace Kanari.Proofs

open Lib

variable {msg : P2PMessage}

section

variable {PeerId : Type} [DecidableEq PeerId] {E : P2PEnv} {limits : ChunkLimits} {now : Nat}
  {σ : Assemblies PeerId} {source : PeerId} {chunk : P2PMessageChunk}

def HasRoom (limits : ChunkLimits) (σ : Assemblies PeerId) (peer : PeerId) : Prop :=
  σ.keys.length < limits.maxInflight ∧ peerTransfers σ peer < limits.maxInflightPerPeer

def assemblyFor (now : Nat) (σ : Assemblies PeerId) (source : PeerId) (chunk : P2PMessageChunk) :
    ChunkAssembly :=
  (σ.lookup (source, chunk.transferId)).getD (.start now chunk.topic chunk.total.toNat)

def ChunkWellFormed (chunk : P2PMessageChunk) : Prop :=
  chunk.total.toNat ≠ 0 ∧ chunk.total.toNat ≤ MAX_CHUNKS_PER_PAYLOAD ∧
    chunk.index.toNat < chunk.total.toNat ∧ chunk.data.length ≤ P2P_CHUNK_SIZE

lemma acceptChunk_admitted (hform : ChunkWellFormed chunk)
    (hroom : (source, chunk.transferId) ∈ retainLive now σ ∨
      HasRoom limits (retainLive now σ) source) :
    acceptChunk E limits now σ source chunk =
      match (assemblyFor now (retainLive now σ) source chunk).receive chunk with
      | none => (none, (retainLive now σ).erase (source, chunk.transferId))
      | some a =>
        if a.received = chunk.total.toNat then
          (a.finish E chunk.transferId, (retainLive now σ).erase (source, chunk.transferId))
        else (none, (retainLive now σ).insert (source, chunk.transferId) a) := by
  obtain ⟨hzero, hmax, hindex, hdata⟩ := hform
  have hgood : ¬(chunk.total.toNat = 0 ∨ chunk.total.toNat > MAX_CHUNKS_PER_PAYLOAD ∨
      chunk.index.toNat ≥ chunk.total.toNat ∨ chunk.data.length > P2P_CHUNK_SIZE) := by omega
  have hall : ¬((source, chunk.transferId) ∉ retainLive now σ ∧
      (retainLive now σ).keys.length ≥ limits.maxInflight) := by
    rintro ⟨hnot, hfull⟩
    obtain hmem | hroom := hroom
    · exact hnot hmem
    · exact absurd hroom.1 (by omega)
  have hpeer : ¬((source, chunk.transferId) ∉ retainLive now σ ∧
      peerTransfers (retainLive now σ) source ≥ limits.maxInflightPerPeer) := by
    rintro ⟨hnot, hfull⟩
    obtain hmem | hroom := hroom
    · exact hnot hmem
    · exact absurd hroom.2 (by omega)
  unfold acceptChunk
  dsimp only
  rw [if_neg hgood, if_neg hall, if_neg hpeer]
  rfl

lemma acceptChunk_cases (E : P2PEnv) (limits : ChunkLimits) (now : Nat) (σ : Assemblies PeerId)
    (source : PeerId) (chunk : P2PMessageChunk) :
    acceptChunk E limits now σ source chunk = (none, retainLive now σ) ∨
    acceptChunk E limits now σ source chunk =
      (none, (retainLive now σ).erase (source, chunk.transferId)) ∨
    (∃ a : ChunkAssembly, acceptChunk E limits now σ source chunk =
      (a.finish E chunk.transferId, (retainLive now σ).erase (source, chunk.transferId))) ∨
    ((source, chunk.transferId) ∈ retainLive now σ ∨ HasRoom limits (retainLive now σ) source) ∧
      ∃ a, acceptChunk E limits now σ source chunk =
        (none, (retainLive now σ).insert (source, chunk.transferId) a) := by
  by_cases hform : ChunkWellFormed chunk
  swap
  · left
    have hbad : chunk.total.toNat = 0 ∨ chunk.total.toNat > MAX_CHUNKS_PER_PAYLOAD ∨
        chunk.index.toNat ≥ chunk.total.toNat ∨ chunk.data.length > P2P_CHUNK_SIZE := by
      unfold ChunkWellFormed at hform
      omega
    unfold acceptChunk
    exact if_pos hbad
  by_cases hroom : (source, chunk.transferId) ∈ retainLive now σ ∨
      HasRoom limits (retainLive now σ) source
  · rw [acceptChunk_admitted hform hroom]
    split
    · exact .inr (.inl rfl)
    · rename_i a _
      split_ifs
      · exact .inr (.inr (.inl ⟨a, rfl⟩))
      · exact .inr (.inr (.inr ⟨hroom, a, rfl⟩))
  · left
    obtain ⟨hnot, hfull⟩ := not_or.mp hroom
    have hgood : ¬(chunk.total.toNat = 0 ∨ chunk.total.toNat > MAX_CHUNKS_PER_PAYLOAD ∨
        chunk.index.toNat ≥ chunk.total.toNat ∨ chunk.data.length > P2P_CHUNK_SIZE) := by
      unfold ChunkWellFormed at hform
      omega
    unfold acceptChunk
    dsimp only
    rw [if_neg hgood]
    by_cases hall : (retainLive now σ).keys.length ≥ limits.maxInflight
    · rw [if_pos ⟨hnot, hall⟩]
    · have hpeer : peerTransfers (retainLive now σ) source ≥ limits.maxInflightPerPeer := by
        by_contra hlt
        exact hfull ⟨by omega, by omega⟩
      rw [if_neg (by simp [hall]), if_pos ⟨hnot, hpeer⟩]

/-! ## Limits -/

/-- The transfers are within the limits; that the bytes of each are is part of an assembly. -/
structure TransferLimits (limits : ChunkLimits) (σ : Assemblies PeerId) : Prop where
  inflight : σ.keys.length ≤ limits.maxInflight
  perPeer : ∀ peer, peerTransfers σ peer ≤ limits.maxInflightPerPeer

lemma TransferLimits.of_sublist {σ' : Assemblies PeerId} (h : TransferLimits limits σ)
    (hkeys : σ'.keys.Sublist σ.keys) : TransferLimits limits σ' :=
  ⟨hkeys.length_le.trans h.inflight, fun peer => hkeys.countP_le.trans (h.perPeer peer)⟩

lemma TransferLimits.erase (h : TransferLimits limits σ) (key : TransferKey PeerId) :
    TransferLimits limits (σ.erase key) :=
  h.of_sublist (keys_erase_sublist σ key)

lemma TransferLimits.insert (h : TransferLimits limits σ) {key : TransferKey PeerId}
    (hroom : key ∈ σ ∨ HasRoom limits σ key.1) (a : ChunkAssembly) :
    TransferLimits limits (σ.insert key a) := by
  by_cases hmem : key ∈ σ
  · have hperm := keys_insert_perm hmem a
    refine ⟨hperm.length_eq ▸ h.inflight, fun peer => ?_⟩
    unfold peerTransfers
    exact hperm.countP_eq _ ▸ h.perPeer peer
  · obtain hroom | ⟨hall, hpeer⟩ := hroom
    · exact absurd hroom hmem
    have hkeys := keys_insert_new hmem a
    refine ⟨?_, fun peer => ?_⟩
    · rw [hkeys, List.length_cons]
      exact hall
    · have hother := h.perPeer peer
      unfold peerTransfers at hpeer hother ⊢
      rw [hkeys, List.countP_cons]
      split_ifs with hpeers
      · obtain rfl : key.1 = peer := of_decide_eq_true hpeers
        exact hpeer
      · exact hother

lemma TransferLimits.accept (h : TransferLimits limits σ) (a : Arrival PeerId) :
    TransferLimits limits (a.accept E limits σ).2 := by
  have hlive : TransferLimits limits (retainLive a.now σ) := h.of_sublist (keys_retain _ σ)
  unfold Arrival.accept
  obtain heq | heq | ⟨_, heq⟩ | ⟨hroom, x, heq⟩ :=
    acceptChunk_cases E limits a.now σ a.source a.chunk
  · rw [heq]
    exact hlive
  · rw [heq]
    exact hlive.erase _
  · rw [heq]
    exact hlive.erase _
  · rw [heq]
    exact hlive.insert hroom x

lemma transferLimits_afterArrivals (arrivals : List (Arrival PeerId)) (h : TransferLimits limits σ) :
    TransferLimits limits (afterArrivals E limits σ arrivals) := by
  induction arrivals generalizing σ with
  | nil => exact h
  | cons a arrivals ih => exact ih (h.accept a)

def bufferedBytes (σ : Assemblies PeerId) (p : TransferKey PeerId → Bool) : Nat :=
  ((σ.entries.filter fun e => p e.1).map fun e => stored e.2.chunks).sum

omit [DecidableEq PeerId] in
lemma bufferedBytes_le (σ : Assemblies PeerId) (p : TransferKey PeerId → Bool) :
    bufferedBytes σ p ≤ σ.keys.countP p * MAX_CHUNKED_PAYLOAD_SIZE := by
  refine sum_entries_le σ p (fun a => stored a.chunks) fun a => ?_
  rw [← a.bytes_eq]
  exact a.bytes_le

/-! ## Hashes -/

lemma finish_some {a : ChunkAssembly} {id : Vector UInt8 32} {message : P2PMessage}
    (h : a.finish E id = some message) :
    ∃ encoded, E.hashDataBlake3 encoded = id ∧ E.decode encoded = .ok (message, encoded.length) := by
  unfold ChunkAssembly.finish at h
  dsimp only at h
  split_ifs at h with hhash
  split at h
  · rename_i m consumed hdecode
    split_ifs at h with hvalid
    cases h
    obtain ⟨rfl, -, -⟩ := hvalid
    exact ⟨_, not_not.mp hhash, hdecode⟩
  · cases h

lemma acceptChunk_hash {message : P2PMessage}
    (h : (acceptChunk E limits now σ source chunk).1 = some message) :
    ∃ encoded, E.hashDataBlake3 encoded = chunk.transferId ∧
      E.decode encoded = .ok (message, encoded.length) := by
  obtain heq | heq | ⟨_, heq⟩ | ⟨-, _, heq⟩ := acceptChunk_cases E limits now σ source chunk
  · rw [heq] at h
    cases h
  · rw [heq] at h
    cases h
  · rw [heq] at h
    exact finish_some h
  · rw [heq] at h
    cases h

/-! ## Reassembly -/

/-- An encoded message that is published in chunks. -/
structure Chunked (data : Bytes) : Prop where
  large : MAX_GOSSIP_MESSAGE_SIZE < data.length
  payload_le : data.length ≤ MAX_CHUNKED_PAYLOAD_SIZE
  count_le : (chunks P2P_CHUNK_SIZE data).length ≤ MAX_CHUNKS_PER_PAYLOAD

def pieceChunk (E : P2PEnv) (topic : P2PTopicKind) (data : Bytes) (i : Nat) (piece : Bytes) :
    P2PMessageChunk :=
  ⟨E.hashDataBlake3 data, topic, .ofNat i, .ofNat (chunks P2P_CHUNK_SIZE data).length, piece⟩

section

variable {topic : P2PTopicKind} {data : Bytes} {c : P2PMessageChunk}

lemma mem_messageChunks :
    c ∈ messageChunks E topic data ↔ ∃ i piece, (chunks P2P_CHUNK_SIZE data)[i]? = some piece ∧
      c = pieceChunk E topic data i piece := by
  have hdef : messageChunks E topic data =
      (chunks P2P_CHUNK_SIZE data).mapIdx (pieceChunk E topic data) := by
    unfold messageChunks pieceChunk
    simp [chunks]
  rw [hdef, List.mem_mapIdx]
  constructor
  · rintro ⟨i, hi, rfl⟩
    exact ⟨i, _, List.getElem?_eq_getElem hi, rfl⟩
  · rintro ⟨i, piece, hpiece, rfl⟩
    obtain ⟨hi, rfl⟩ := List.getElem?_eq_some_iff.mp hpiece
    exact ⟨i, hi, rfl⟩

variable {i : Nat} {piece : Bytes}

lemma Chunked.toNat_ofNat (h : Chunked data) {n : Nat}
    (hn : n ≤ (chunks P2P_CHUNK_SIZE data).length) : (UInt16.ofNat n).toNat = n := by
  have hmax := h.count_le
  unfold MAX_CHUNKS_PER_PAYLOAD at hmax
  exact UInt16.toNat_ofNat_of_lt' (by unfold UInt16.size; omega)

lemma Chunked.pieceChunk_total (h : Chunked data) :
    (pieceChunk E topic data i piece).total.toNat = (chunks P2P_CHUNK_SIZE data).length :=
  h.toNat_ofNat le_rfl

lemma Chunked.pieceChunk_index (h : Chunked data)
    (hpiece : (chunks P2P_CHUNK_SIZE data)[i]? = some piece) :
    (pieceChunk E topic data i piece).index.toNat = i :=
  h.toNat_ofNat (List.getElem?_eq_some_iff.mp hpiece).1.le

lemma Chunked.pieceChunk_injective (h : Chunked data) {j : Nat} {piece' : Bytes}
    (hi : (chunks P2P_CHUNK_SIZE data)[i]? = some piece)
    (hj : (chunks P2P_CHUNK_SIZE data)[j]? = some piece')
    (heq : pieceChunk E topic data i piece = pieceChunk E topic data j piece') : i = j := by
  have hindex : (pieceChunk E topic data i piece).index.toNat =
      (pieceChunk E topic data j piece').index.toNat := by rw [heq]
  rwa [h.pieceChunk_index hi, h.pieceChunk_index hj] at hindex

lemma Chunked.chunkWellFormed (h : Chunked data)
    (hpiece : (chunks P2P_CHUNK_SIZE data)[i]? = some piece) :
    ChunkWellFormed (pieceChunk E topic data i piece) := by
  have hi := (List.getElem?_eq_some_iff.mp hpiece).1
  refine ⟨?_, ?_, ?_, length_le_of_mem_pieces (List.mem_of_getElem? hpiece)⟩
  · rw [h.pieceChunk_total]
    omega
  · rw [h.pieceChunk_total]
    exact h.count_le
  · rw [h.pieceChunk_total, h.pieceChunk_index hpiece]
    exact hi

/-- An assembly that has the pieces `seen` and nothing else. -/
structure Collects (topic : P2PTopicKind) (data : Bytes) (created : Nat) (seen : Finset Nat)
    (a : ChunkAssembly) : Prop where
  createdAt : a.createdAt = created
  topic_eq : a.topic = topic
  chunks_eq : a.chunks = slotsOf (chunks P2P_CHUNK_SIZE data) seen

variable {created : Nat} {seen : Finset Nat} {a : ChunkAssembly}

lemma Collects.start (h : Chunked data) (created : Nat) :
    Collects topic data created ∅
      (.start created topic (pieceChunk E topic data i piece).total.toNat) := by
  refine ⟨rfl, rfl, ?_⟩
  rw [slotsOf_empty, h.pieceChunk_total]
  rfl

lemma Collects.receive (ha : Collects topic data created seen a) (h : Chunked data)
    (hpiece : (chunks P2P_CHUNK_SIZE data)[i]? = some piece) :
    ∃ a', a.receive (pieceChunk E topic data i piece) = some a' ∧
      Collects topic data created (insert i seen) a' := by
  have hheader : ¬(a.chunks.length ≠ (pieceChunk E topic data i piece).total.toNat ∨
      a.topic ≠ (pieceChunk E topic data i piece).topic) := by
    rw [h.pieceChunk_total, ha.chunks_eq, length_slotsOf, ha.topic_eq]
    simp [pieceChunk]
  unfold ChunkAssembly.receive
  rw [if_neg hheader]
  have hslot := getElem?_slotsOf hpiece seen
  have hindex : (pieceChunk E topic data i piece).index.toNat = i := h.pieceChunk_index hpiece
  rw [← ha.chunks_eq, ← hindex] at hslot
  by_cases hseen : (pieceChunk E topic data i piece).index.toNat ∈ seen
  · rw [if_pos hseen] at hslot
    rw [dif_neg (by simp [hslot])]
    rw [h.pieceChunk_index hpiece] at hseen
    exact ⟨a, rfl, ha.createdAt, ha.topic_eq, by rw [Finset.insert_eq_of_mem hseen, ha.chunks_eq]⟩
  · rw [if_neg hseen] at hslot
    have hset : a.chunks.set (pieceChunk E topic data i piece).index.toNat (some piece) =
        slotsOf (chunks P2P_CHUNK_SIZE data) (insert i seen) := by
      rw [h.pieceChunk_index hpiece, ha.chunks_eq, slotsOf_insert hpiece]
    have hbytes : a.bytes + piece.length ≤ MAX_CHUNKED_PAYLOAD_SIZE := by
      have hstored := stored_slotsOf_le (chunks P2P_CHUNK_SIZE data) (insert i seen)
      rw [← hset, stored_set hslot, ← a.bytes_eq, flatten_chunks (by decide)] at hstored
      exact hstored.trans h.payload_le
    have hle : saturatingAdd a.bytes piece.length ≤ MAX_CHUNKED_PAYLOAD_SIZE :=
      (min_le_left _ _).trans hbytes
    rw [dif_pos hslot]
    exact ⟨_, dif_pos hle, ha.createdAt, ha.topic_eq, hset⟩

lemma Collects.received_iff (ha : Collects topic data created seen a) :
    a.received = (chunks P2P_CHUNK_SIZE data).length ↔
      ∀ j < (chunks P2P_CHUNK_SIZE data).length, j ∈ seen := by
  rw [a.received_eq, ha.chunks_eq, filled_slotsOf]

lemma Collects.finish (ha : Collects (messageTopicKind msg) data created seen a)
    (hall : ∀ j < (chunks P2P_CHUNK_SIZE data).length, j ∈ seen) (hencode : E.encode msg = .ok data) :
    a.finish E (E.hashDataBlake3 data) = if msg.isChunk then none else some msg := by
  have hdata : (a.chunks.filterMap id).flatten = data := by
    rw [ha.chunks_eq, filterMap_slotsOf hall, flatten_chunks (by decide)]
  unfold ChunkAssembly.finish
  simp only [hdata, E.decode_encode hencode, ne_eq, not_true_eq_false, if_false, true_and]
  rw [ha.topic_eq]
  cases msg.isChunk <;> simp

/-! ## A transfer among others -/

def transferKey (E : P2PEnv) (source : PeerId) (data : Bytes) : TransferKey PeerId :=
  (source, E.hashDataBlake3 data)

def UnderWay (E : P2PEnv) (source : PeerId) (topic : P2PTopicKind) (data : Bytes) (created : Nat)
    (seen : Finset Nat) (σ : Assemblies PeerId) : Prop :=
  ∃ a, σ.lookup (transferKey E source data) = some a ∧ Collects topic data created seen a

lemma UnderWay.live (h : UnderWay E source topic data created seen σ)
    (htime : now - created ≤ CHUNK_TTL) :
    UnderWay E source topic data created seen (retainLive now σ) := by
  obtain ⟨a, hlookup, ha⟩ := h
  refine ⟨a, lookup_retain hlookup ?_, ha⟩
  rw [ha.createdAt]
  exact decide_eq_true htime

variable (limits) in
lemma UnderWay.other (h : UnderWay E source topic data created seen σ) {b : Arrival PeerId}
    (htime : b.now - created ≤ CHUNK_TTL) (hkey : b.key ≠ transferKey E source data) :
    UnderWay E source topic data created seen (b.accept E limits σ).2 := by
  obtain ⟨a, hlookup, ha⟩ := h.live htime
  refine ⟨a, ?_, ha⟩
  unfold Arrival.accept
  obtain heq | heq | ⟨_, heq⟩ | ⟨-, x, heq⟩ :=
    acceptChunk_cases E limits b.now σ b.source b.chunk
  · rw [heq]
    exact hlookup
  · rw [heq]
    exact (AList.lookup_erase_ne hkey.symm).trans hlookup
  · rw [heq]
    exact (AList.lookup_erase_ne hkey.symm).trans hlookup
  · rw [heq]
    exact (AList.lookup_insert_ne hkey.symm).trans hlookup

variable (limits) in
lemma accept_piece (h : Chunked data) (hpiece : (chunks P2P_CHUNK_SIZE data)[i]? = some piece)
    (hassembly : Collects topic data created seen
      (assemblyFor now (retainLive now σ) source (pieceChunk E topic data i piece)))
    (hroom : transferKey E source data ∈ retainLive now σ ∨
      HasRoom limits (retainLive now σ) source) :
    ∃ a', Collects topic data created (insert i seen) a' ∧
      acceptChunk E limits now σ source (pieceChunk E topic data i piece) =
        if ∀ j < (chunks P2P_CHUNK_SIZE data).length, j ∈ insert i seen then
          (a'.finish E (E.hashDataBlake3 data),
            (retainLive now σ).erase (transferKey E source data))
        else (none, (retainLive now σ).insert (transferKey E source data) a') := by
  obtain ⟨a', hreceive, ha'⟩ := hassembly.receive (E := E) h hpiece
  refine ⟨a', ha', ?_⟩
  rw [acceptChunk_admitted (h.chunkWellFormed hpiece) hroom, hreceive, h.pieceChunk_total]
  by_cases hall : ∀ j < (chunks P2P_CHUNK_SIZE data).length, j ∈ insert i seen
  · rw [if_pos hall]
    exact if_pos (ha'.received_iff.mpr hall)
  · rw [if_neg hall]
    exact if_neg (mt ha'.received_iff.mp hall)

variable (i piece) in
lemma UnderWay.assembly (h : UnderWay E source topic data created seen σ) (now : Nat) :
    Collects topic data created seen
        (assemblyFor now σ source (pieceChunk E topic data i piece)) ∧
      transferKey E source data ∈ σ := by
  obtain ⟨a, hlookup, ha⟩ := h
  constructor
  · have hfor : assemblyFor now σ source (pieceChunk E topic data i piece) = a := by
      rw [assemblyFor, show (source, (pieceChunk E topic data i piece).transferId) =
        transferKey E source data from rfl, hlookup]
      rfl
    rwa [hfor]
  · rw [← AList.lookup_isSome, hlookup]
    rfl

variable (limits) in
/-- As long as the piece `k` is missing, the arrivals only add to what was seen. -/
lemma UnderWay.arrivals (h : Chunked data) {k : Nat}
    (hk : k < (chunks P2P_CHUNK_SIZE data).length) (arrivals : List (Arrival PeerId))
    (hstart : UnderWay E source topic data created seen σ) (hmissing : k ∉ seen)
    (htime : ∀ b ∈ arrivals, b.now - created ≤ CHUNK_TTL)
    (hpieces : ∀ b ∈ arrivals, b.key = transferKey E source data →
      ∃ i piece, i ≠ k ∧ (chunks P2P_CHUNK_SIZE data)[i]? = some piece ∧
        b.chunk = pieceChunk E topic data i piece) :
    ∃ seen', UnderWay E source topic data created seen' (afterArrivals E limits σ arrivals) ∧
      k ∉ seen' ∧ seen ⊆ seen' ∧
      ∀ b ∈ arrivals, b.key = transferKey E source data → ∀ i piece,
        (chunks P2P_CHUNK_SIZE data)[i]? = some piece → b.chunk = pieceChunk E topic data i piece →
          i ∈ seen' := by
  induction arrivals generalizing σ seen with
  | nil => exact ⟨seen, hstart, hmissing, Finset.Subset.refl _, fun b hb => absurd hb List.not_mem_nil⟩
  | cons b arrivals ih =>
    have htime' := fun b' hb' => htime b' (List.mem_cons_of_mem _ hb')
    have hpieces' := fun b' hb' => hpieces b' (List.mem_cons_of_mem _ hb')
    have hb : b.now - created ≤ CHUNK_TTL := htime b List.mem_cons_self
    by_cases hkey : b.key = transferKey E source data
    · obtain ⟨i, piece, hik, hpiece, hchunk⟩ := hpieces b List.mem_cons_self hkey
      obtain ⟨hassembly, hmem⟩ := (hstart.live hb).assembly i piece b.now
      obtain ⟨a', ha', heq⟩ := accept_piece limits h hpiece hassembly (.inl hmem)
      have hstill : k ∉ insert i seen := by
        rw [Finset.mem_insert, not_or]
        exact ⟨hik.symm, hmissing⟩
      have hsource : b.source = source := congrArg Prod.fst hkey
      have hnext : UnderWay E source topic data created (insert i seen) (b.accept E limits σ).2 := by
        refine ⟨a', ?_, ha'⟩
        rw [Arrival.accept, hsource, hchunk, heq, if_neg fun hall => hstill (hall k hk)]
        exact AList.lookup_insert _
      obtain ⟨seen', hafter, hmissing', hsub, hseen⟩ := ih hnext hstill htime' hpieces'
      refine ⟨seen', hafter, hmissing', (Finset.subset_insert i seen).trans hsub, ?_⟩
      intro b' hb' hkey' j piece' hpiece' hchunk'
      obtain rfl | hb' := List.mem_cons.mp hb'
      · obtain rfl : i = j := h.pieceChunk_injective hpiece hpiece' (hchunk.symm.trans hchunk')
        exact hsub (Finset.mem_insert_self i seen)
      · exact hseen b' hb' hkey' j piece' hpiece' hchunk'
    · obtain ⟨seen', hafter, hmissing', hsub, hseen⟩ :=
        ih (hstart.other limits hb hkey) hmissing htime' hpieces'
      refine ⟨seen', hafter, hmissing', hsub, ?_⟩
      intro b' hb' hkey'
      obtain rfl | hb' := List.mem_cons.mp hb'
      · exact absurd hkey' hkey
      · exact hseen b' hb' hkey'

/-- The chunks of a message from one peer, from the first one on and until the last one that was
missing arrives: in any order, with duplicates, and among the chunks of other transfers. Nothing
was under way at first and there is room, and the time to live is not over. -/
structure Delivered (E : P2PEnv) (limits : ChunkLimits) (σ : Assemblies PeerId) (source : PeerId)
    (topic : P2PTopicKind) (data : Bytes) (first : Arrival PeerId) (between : List (Arrival PeerId))
    (last : Arrival PeerId) : Prop where
  absent : transferKey E source data ∉ retainLive first.now σ
  room : HasRoom limits (retainLive first.now σ) source
  first_key : first.key = transferKey E source data
  last_key : last.key = transferKey E source data
  genuine : ∀ b ∈ first :: between ++ [last], b.key = transferKey E source data →
    b.chunk ∈ messageChunks E topic data
  in_time : ∀ b ∈ between ++ [last], b.now - first.now ≤ CHUNK_TTL
  missing : ∀ b ∈ first :: between, b.key = transferKey E source data → b.chunk ≠ last.chunk
  complete : ∀ c ∈ messageChunks E topic data,
    ∃ b ∈ first :: between ++ [last], b.key = transferKey E source data ∧ b.chunk = c

variable {first last : Arrival PeerId} {between : List (Arrival PeerId)}

lemma Delivered.opened (hd : Delivered E limits σ source topic data first between last)
    (h : Chunked data) {k : Nat} (hk : k < (chunks P2P_CHUNK_SIZE data).length) (hik : i ≠ k)
    (hpiece : (chunks P2P_CHUNK_SIZE data)[i]? = some piece)
    (hchunk : first.chunk = pieceChunk E topic data i piece) :
    UnderWay E source topic data first.now {i} (first.accept E limits σ).2 := by
  have hlookup : (retainLive first.now σ).lookup (transferKey E source data) = none :=
    AList.lookup_eq_none.mpr hd.absent
  have hassembly : Collects topic data first.now ∅ (assemblyFor first.now
      (retainLive first.now σ) source (pieceChunk E topic data i piece)) := by
    rw [assemblyFor, show (source, (pieceChunk E topic data i piece).transferId) =
      transferKey E source data from rfl, hlookup]
    exact Collects.start h first.now
  obtain ⟨a, ha, heq⟩ := accept_piece limits h hpiece hassembly (.inr hd.room)
  have hsource : first.source = source := congrArg Prod.fst hd.first_key
  have hmissing : ¬∀ j < (chunks P2P_CHUNK_SIZE data).length, j ∈ insert i (∅ : Finset Nat) := by
    intro hall
    have hmem := hall k hk
    rw [LawfulSingleton.insert_empty_eq, Finset.mem_singleton] at hmem
    exact hik hmem.symm
  refine ⟨a, ?_, ha⟩
  rw [Arrival.accept, hsource, hchunk, heq, if_neg hmissing]
  exact AList.lookup_insert _

/-- With the last chunk the message is there, unless it is itself a chunk. -/
theorem Delivered.result
    (hd : Delivered E limits σ source (messageTopicKind msg) data first between last)
    (h : Chunked data) (hencode : E.encode msg = .ok data) :
    (last.accept E limits (afterArrivals E limits σ (first :: between))).1 =
      if msg.isChunk then none else some msg := by
  obtain ⟨k, lastPiece, hlastPiece, hlast⟩ :=
    mem_messageChunks.mp (hd.genuine last (by simp) hd.last_key)
  obtain ⟨i, firstPiece, hfirstPiece, hfirst⟩ :=
    mem_messageChunks.mp (hd.genuine first (by simp) hd.first_key)
  have hk := (List.getElem?_eq_some_iff.mp hlastPiece).1
  have hne : ∀ {j piece}, (chunks P2P_CHUNK_SIZE data)[j]? = some piece → ∀ b ∈ first :: between,
      b.key = transferKey E source data →
      b.chunk = pieceChunk E (messageTopicKind msg) data j piece → j ≠ k := by
    rintro j piece hj b hb hkey hchunk rfl
    obtain rfl : piece = lastPiece := Option.some.inj (hj.symm.trans hlastPiece)
    exact hd.missing b hb hkey (hchunk.trans hlast.symm)
  have hik : i ≠ k := hne hfirstPiece first List.mem_cons_self hd.first_key hfirst
  have hopened := hd.opened h hk hik hfirstPiece hfirst
  obtain ⟨seen, hunder, hmissing, hsub, hseen⟩ :=
    hopened.arrivals limits h hk between (by simpa using hik.symm)
      (fun b hb => hd.in_time b (List.mem_append_left _ hb)) (fun b hb hkey => by
        obtain ⟨j, piece, hj, hchunk⟩ :=
          mem_messageChunks.mp (hd.genuine b (by simp [hb]) hkey)
        exact ⟨j, piece, hne hj b (List.mem_cons_of_mem _ hb) hkey hchunk, hj, hchunk⟩)
  have hall : ∀ j < (chunks P2P_CHUNK_SIZE data).length, j ∈ insert k seen := by
    intro j hj
    have hpiece := List.getElem?_eq_getElem hj
    obtain ⟨b, hb, hkey, hchunk⟩ := hd.complete _ (mem_messageChunks.mpr ⟨j, _, hpiece, rfl⟩)
    rw [List.cons_append, List.mem_cons, List.mem_append, List.mem_singleton] at hb
    obtain rfl | hb | rfl := hb
    · obtain rfl : i = j := h.pieceChunk_injective hfirstPiece hpiece (hfirst.symm.trans hchunk)
      exact Finset.mem_insert_of_mem (hsub (Finset.mem_singleton_self i))
    · exact Finset.mem_insert_of_mem (hseen b hb hkey j _ hpiece hchunk)
    · obtain rfl : k = j := h.pieceChunk_injective hlastPiece hpiece (hlast.symm.trans hchunk)
      exact Finset.mem_insert_self k seen
  have htime : last.now - first.now ≤ CHUNK_TTL := hd.in_time last (by simp)
  obtain ⟨hassembly, hmem⟩ := (hunder.live htime).assembly k lastPiece last.now
  obtain ⟨a, ha, heq⟩ := accept_piece limits h hlastPiece hassembly (.inl hmem)
  have hsource : last.source = source := congrArg Prod.fst hd.last_key
  have hstate : afterArrivals E limits σ (first :: between) =
      afterArrivals E limits (first.accept E limits σ).2 between := rfl
  rw [hstate, Arrival.accept, hsource, hlast, heq, if_pos hall]
  exact ha.finish hall hencode

end

/-! ## Published messages -/

lemma compressLargeMessage_isChunk {finalMsg : P2PMessage}
    (h : compressLargeMessage E msg = .ok finalMsg) : finalMsg.isChunk = msg.isChunk := by
  unfold compressLargeMessage at h
  split at h
  all_goals first
    | (cases h; rfl)
    | (split_ifs at h
       · obtain ⟨_, _, h⟩ := bind_eq_ok.mp h
         cases h
         rfl
       · cases h
         rfl)

lemma publishMessage_chunked {publish : GossipPublish} {sent₀ sent : Published}
    {finalMsg : P2PMessage} {data : Bytes} (h : publishMessage E publish sent₀ msg = .ok sent)
    (hcompress : compressLargeMessage E msg = .ok finalMsg) (hencode : E.encode finalMsg = .ok data)
    (hlarge : MAX_GOSSIP_MESSAGE_SIZE < data.length) : Chunked data := by
  unfold publishMessage at h
  rw [hcompress, ok_bind, hencode] at h
  simp only [mapError, ok_bind] at h
  rw [if_pos hlarge] at h
  obtain ⟨_, hpayload, h⟩ := bind_eq_ok.mp h
  obtain ⟨_, hcount, _⟩ := bind_eq_ok.mp h
  refine ⟨hlarge, by simpa using ensure_eq_ok.mp hpayload, ?_⟩
  rw [chunks, length_pieces]
  simpa using ensure_eq_ok.mp hcount

/-- Chunk transfers: a message that is not itself a chunk is returned when the last of its chunks
arrives; what is returned has the hash of its transfer; and what is kept stays within the limits,
for one transfer, for one peer and in all. -/
theorem chunk_transfer (E : P2PEnv) (limits : ChunkLimits) (PeerId : Type) [DecidableEq PeerId] :
    (∀ publish sent₀ sent msg finalMsg data,
      publishMessage E publish sent₀ msg = .ok sent →
      compressLargeMessage E msg = .ok finalMsg → E.encode finalMsg = .ok data →
      MAX_GOSSIP_MESSAGE_SIZE < data.length → msg.isChunk = false →
      ∀ (σ : Assemblies PeerId) source first between last,
        Delivered E limits σ source (messageTopicKind finalMsg) data first between last →
        (last.accept E limits (afterArrivals E limits σ (first :: between))).1 = some finalMsg) ∧
    (∀ now (σ : Assemblies PeerId) source chunk message,
      (acceptChunk E limits now σ source chunk).1 = some message →
      ∃ encoded, E.hashDataBlake3 encoded = chunk.transferId ∧
        E.decode encoded = .ok (message, encoded.length)) ∧
    ∀ arrivals : List (Arrival PeerId),
      (∀ key a, (afterArrivals E limits ∅ arrivals).lookup key = some a →
        stored a.chunks ≤ MAX_CHUNKED_PAYLOAD_SIZE) ∧
      (∀ peer, bufferedBytes (afterArrivals E limits ∅ arrivals) (fun key => key.1 = peer) ≤
        limits.maxInflightPerPeer * MAX_CHUNKED_PAYLOAD_SIZE) ∧
      bufferedBytes (afterArrivals E limits ∅ arrivals) (fun _ => true) ≤
        limits.maxInflight * MAX_CHUNKED_PAYLOAD_SIZE := by
  refine ⟨?_, fun now σ source chunk message h => acceptChunk_hash h, fun arrivals => ⟨?_, ?_, ?_⟩⟩
  · intro publish sent₀ sent msg finalMsg data hpublish hcompress hencode hlarge hmsg
      σ source first between last hd
    have hchunked := publishMessage_chunked hpublish hcompress hencode hlarge
    rw [hd.result hchunked hencode, compressLargeMessage_isChunk hcompress, hmsg]
    rfl
  · intro key a _
    rw [← a.bytes_eq]
    exact a.bytes_le
  all_goals
    have hlimits : TransferLimits limits (afterArrivals E limits (∅ : Assemblies PeerId) arrivals) :=
      transferLimits_afterArrivals arrivals ⟨Nat.zero_le _, fun _ => Nat.zero_le _⟩
  · intro peer
    refine (bufferedBytes_le _ _).trans (Nat.mul_le_mul_right _ ?_)
    exact hlimits.perPeer peer
  · refine (bufferedBytes_le _ _).trans (Nat.mul_le_mul_right _ ?_)
    rw [List.countP_true]
    exact hlimits.inflight

end

/-! ## Two large messages -/

def topicByte : P2PTopicKind → UInt8
  | .checkpoint => 0
  | .transaction => 1
  | .peer => 2
  | .dagVertex => 3

def byteTopic (b : UInt8) : P2PTopicKind :=
  if b = 0 then .checkpoint else if b = 1 then .transaction else if b = 2 then .peer else .dagVertex

def chunkBytes (c : P2PMessageChunk) : Bytes :=
  1 :: topicByte c.topic :: (Text.leBytes 2 c.index.toNat ++
    (Text.leBytes 2 c.total.toNat ++ (c.transferId.toList ++ c.data)))

def readChunk (b : UInt8) (rest : Bytes) : Except String P2PMessageChunk :=
  match readExact 2 rest with
  | (none, _) => .error "index"
  | (some index, rest) =>
    match readExact 2 rest with
    | (none, _) => .error "total"
    | (some total, rest) =>
      if h : (rest.take 32).length = 32 then
        .ok ⟨⟨(rest.take 32).toArray, by simpa using h⟩, byteTopic b, .ofNat (Text.leNat index),
          .ofNat (Text.leNat total), rest.drop 32⟩
      else .error "transfer id"

lemma readChunk_chunkBytes (c : P2PMessageChunk) :
    readChunk (topicByte c.topic) (Text.leBytes 2 c.index.toNat ++
      (Text.leBytes 2 c.total.toNat ++ (c.transferId.toList ++ c.data))) = .ok c := by
  have hindex : Text.leNat (Text.leBytes 2 c.index.toNat) = c.index.toNat :=
    Text.leNat_leBytes 2 _ (lt_of_lt_of_le c.index.toNat_lt (by decide))
  have htotal : Text.leNat (Text.leBytes 2 c.total.toNat) = c.total.toNat :=
    Text.leNat_leBytes 2 _ (lt_of_lt_of_le c.total.toNat_lt (by decide))
  have htopic : byteTopic (topicByte c.topic) = c.topic := by cases c.topic <;> rfl
  unfold readChunk
  rw [readExact_append (Text.length_leBytes 2 _)]
  dsimp only
  rw [readExact_append (Text.length_leBytes 2 _)]
  dsimp only
  have htake : (c.transferId.toList ++ c.data).take 32 = c.transferId.toList := by
    rw [List.take_append_of_le_length (by simp), List.take_of_length_le (by simp)]
  have hdrop : (c.transferId.toList ++ c.data).drop 32 = c.data := by
    rw [List.drop_append_of_le_length (by simp), List.drop_eq_nil_of_le (by simp), List.nil_append]
  rw [dif_pos (by rw [htake]; simp)]
  have hid : ∀ h, (⟨c.transferId.toList.toArray, h⟩ : Vector UInt8 32) = c.transferId := by
    intro h
    exact Vector.toArray_inj.mp (Array.toArray_toList)
  simp only [htake, hdrop, hindex, htotal, htopic, UInt16.ofNat_toNat, hid]

/-- Compressed vertices and chunks are all that is encoded; everything has one hash. -/
def sampleP2P : P2PEnv where
  gzipString _ := .error "not compressed"
  encode
    | .compressedDagVertex data => .ok (0 :: data)
    | .chunk c => .ok (chunkBytes c)
    | _ => .error "not encoded"
  decode
    | 0 :: data => .ok (.compressedDagVertex data, data.length + 1)
    | 1 :: topic :: rest => do
      let c ← readChunk topic rest
      return (.chunk c, rest.length + 2)
    | _ => .error "not decoded"
  hashDataBlake3 _ := Vector.replicate 32 7
  decode_encode := by
    intro msg data h
    cases msg
    case compressedDagVertex data =>
      cases h
      rfl
    case chunk c =>
      cases h
      simp only [chunkBytes, readChunk_chunkBytes, ok_bind, pure_eq_ok]
      rfl
    all_goals cases h

def inOrder (topic : P2PTopicKind) (data : Bytes) : List (Arrival Nat) :=
  (messageChunks sampleP2P topic data).map fun c => ⟨0, 0, c⟩

lemma Chunked.two_pieces {data : Bytes} (h : Chunked data) :
    2 ≤ (chunks P2P_CHUNK_SIZE data).length := by
  have hlarge := h.large
  rw [chunks, length_pieces, Nat.le_div_iff_mul_le (by decide)]
  unfold MAX_GOSSIP_MESSAGE_SIZE at hlarge
  unfold P2P_CHUNK_SIZE
  omega

lemma nodup_messageChunks (topic : P2PTopicKind) {data : Bytes} (h : Chunked data) :
    (messageChunks sampleP2P topic data).Nodup := by
  rw [List.nodup_iff_injective_getElem]
  intro i j heq
  have hget : ∀ k : Fin (messageChunks sampleP2P topic data).length, ∃ piece,
      (chunks P2P_CHUNK_SIZE data)[k.val]? = some piece ∧
        (messageChunks sampleP2P topic data)[k.val] =
          pieceChunk sampleP2P topic data k.val piece := by
    intro k
    have hk : k.val < (chunks P2P_CHUNK_SIZE data).length := by
      simpa [messageChunks] using k.isLt
    refine ⟨_, List.getElem?_eq_getElem hk, ?_⟩
    simp [messageChunks, pieceChunk, chunks]
  obtain ⟨piece, hpiece, hi⟩ := hget i
  obtain ⟨piece', hpiece', hj⟩ := hget j
  exact Fin.ext (h.pieceChunk_injective hpiece hpiece' (hi.symm.trans (heq.trans hj)))

lemma mem_inOrder {topic : P2PTopicKind} {data : Bytes} {b : Arrival Nat} (hb : b ∈ inOrder topic data) :
    b.now = 0 ∧ b.key = transferKey sampleP2P 0 data ∧ b.chunk ∈ messageChunks sampleP2P topic data ∧
      b = ⟨0, 0, b.chunk⟩ := by
  obtain ⟨c, hc, rfl⟩ := List.mem_map.mp hb
  obtain ⟨i, piece, -, rfl⟩ := mem_messageChunks.mp hc
  exact ⟨rfl, rfl, hc, rfl⟩

/-- The arrivals of a message, the last one once and the others any number of times, and anything
from other peers in between. -/
lemma delivered_of_mem {topic : P2PTopicKind} {data : Bytes} {first last : Arrival Nat}
    {between : List (Arrival Nat)} (hfirst : first ∈ inOrder topic data) (hlast : last ∈ inOrder topic data)
    (hne : first ≠ last)
    (hbetween : ∀ b ∈ between, b.now = 0 ∧ (b ∈ inOrder topic data ∧ b ≠ last ∨ b.source ≠ 0))
    (hall : ∀ b ∈ inOrder topic data, b ∈ first :: between ++ [last]) :
    Delivered sampleP2P ⟨16, 4⟩ (∅ : Assemblies Nat) 0 topic data first between last := by
  have hown : ∀ b ∈ first :: between, b.key = transferKey sampleP2P 0 data →
      b ∈ inOrder topic data ∧ b ≠ last := by
    intro b hb hkey
    rcases List.mem_cons.mp hb with rfl | hb
    · exact ⟨hfirst, hne⟩
    · exact (hbetween b hb).2.resolve_right fun hother => hother (congrArg Prod.fst hkey)
  constructor
  · exact AList.notMem_empty _
  · exact ⟨Nat.zero_lt_succ 15, Nat.zero_lt_succ 3⟩
  · exact (mem_inOrder hfirst).2.1
  · exact (mem_inOrder hlast).2.1
  · intro b hb hkey
    rcases List.mem_append.mp hb with hb | hb
    · exact (mem_inOrder (hown b hb hkey).1).2.2.1
    · rw [List.mem_singleton.mp hb]
      exact (mem_inOrder hlast).2.2.1
  · intro b hb
    have hnow : b.now = 0 := by
      rcases List.mem_append.mp hb with hb | hb
      · exact (hbetween b hb).1
      · rw [List.mem_singleton.mp hb]
        exact (mem_inOrder hlast).1
    rw [hnow, Nat.zero_sub]
    exact Nat.zero_le _
  · intro b hb hkey heq
    obtain ⟨hmem, hother⟩ := hown b hb hkey
    apply hother
    rw [(mem_inOrder hmem).2.2.2, heq, ← (mem_inOrder hlast).2.2.2]
  · intro c hc
    have hmem : (⟨0, 0, c⟩ : Arrival Nat) ∈ inOrder topic data := List.mem_map_of_mem hc
    exact ⟨_, hall _ hmem, (mem_inOrder hmem).2.1, rfl⟩

lemma inOrder_split (topic : P2PTopicKind) {data : Bytes} (h : Chunked data) :
    ∃ first between last, inOrder topic data = first :: between ++ [last] ∧
      (first :: between ++ [last]).Nodup := by
  have hlength : (inOrder topic data).length = (chunks P2P_CHUNK_SIZE data).length := by
    simp [inOrder, messageChunks]
  have hnodup : (inOrder topic data).Nodup :=
    (nodup_messageChunks topic h).map fun _ _ heq => congrArg Arrival.chunk heq
  obtain ⟨first, rest, hfirst⟩ := List.exists_cons_of_length_pos
    (lt_of_lt_of_le Nat.zero_lt_two (hlength ▸ h.two_pieces))
  obtain rfl | ⟨between, last, rfl⟩ := List.eq_nil_or_concat rest
  · have htwo := h.two_pieces
    rw [← hlength, hfirst] at htwo
    exact absurd htwo (by simp)
  · rw [List.concat_eq_append, ← List.cons_append] at hfirst
    exact ⟨first, between, last, hfirst, hfirst ▸ hnodup⟩

lemma delivered_inOrder (topic : P2PTopicKind) {data : Bytes} (h : Chunked data) :
    ∃ first between last, inOrder topic data = first :: between ++ [last] ∧
      Delivered sampleP2P ⟨16, 4⟩ (∅ : Assemblies Nat) 0 topic data first between last := by
  obtain ⟨first, between, last, horder, hnodup⟩ := inOrder_split topic h
  have hlast := (List.nodup_append.mp hnodup).2.2
  refine ⟨first, between, last, horder, delivered_of_mem (by simp [horder]) (by simp [horder])
    (hlast first (by simp) last (by simp)) (fun b hb => ?_) (by simp [horder])⟩
  have hmem : b ∈ inOrder topic data := by simp [horder, hb]
  exact ⟨(mem_inOrder hmem).1, .inl ⟨hmem, hlast b (by simp [hb]) last (by simp)⟩⟩

lemma delivered_shuffled (topic : P2PTopicKind) {data : Bytes} (h : Chunked data) :
    ∃ first between last, inOrder topic data = first :: between ++ [last] ∧
      Delivered sampleP2P ⟨16, 4⟩ (∅ : Assemblies Nat) 0 topic data last
        (⟨0, 1, first.chunk⟩ :: last :: between.reverse) first := by
  obtain ⟨first, between, last, horder, hnodup⟩ := inOrder_split topic h
  have hother : ∀ b ∈ between ++ [last], b ≠ first := fun b hb heq =>
    (List.nodup_cons.mp hnodup).1 (heq ▸ hb)
  refine ⟨first, between, last, horder, delivered_of_mem (by simp [horder]) (by simp [horder])
    (hother last (by simp)) (fun b hb => ?_) (fun b hb => by simp [horder] at hb ⊢; tauto)⟩
  rcases List.mem_cons.mp hb with rfl | hb
  · exact ⟨rfl, .inr Nat.one_ne_zero⟩
  · have hrest : b ∈ between ++ [last] := by simp at hb ⊢; tauto
    have hmem : b ∈ inOrder topic data := horder ▸ List.mem_cons_of_mem _ hrest
    exact ⟨(mem_inOrder hmem).1, .inl ⟨hmem, hother b hrest⟩⟩

lemma publishChunks_sample (sent : Published) (cs : List P2PMessageChunk) :
    ∃ sent', publishChunks sampleP2P (fun _ _ => .ok ()) sent cs = .ok sent' := by
  induction cs generalizing sent with
  | nil => exact ⟨sent, rfl⟩
  | cons c cs ih => exact ih _

lemma publishMessage_sample (msg : P2PMessage) {data : Bytes}
    (hcompress : compressLargeMessage sampleP2P msg = .ok msg)
    (hencode : sampleP2P.encode msg = .ok data) (h : Chunked data) :
    ∃ sent, publishMessage sampleP2P (fun _ _ => .ok ()) [] msg = .ok sent := by
  obtain ⟨sent, hsent⟩ :=
    publishChunks_sample [] (messageChunks sampleP2P (messageTopicKind msg) data)
  have hcount := h.count_le
  rw [chunks, length_pieces] at hcount
  refine ⟨sent, ?_⟩
  unfold publishMessage
  rw [hcompress, ok_bind, hencode]
  simp only [mapError, ok_bind]
  rw [if_pos h.large, decide_eq_true h.payload_le, ensure_true, ok_bind, decide_eq_true hcount,
    ensure_true, ok_bind]
  exact hsent

lemma chunked_of_length {data : Bytes} (h : MAX_GOSSIP_MESSAGE_SIZE < data.length)
    (hle : data.length ≤ MAX_CHUNKED_PAYLOAD_SIZE) : Chunked data := by
  refine ⟨h, hle, ?_⟩
  rw [chunks, length_pieces]
  unfold MAX_CHUNKED_PAYLOAD_SIZE at hle
  unfold P2P_CHUNK_SIZE MAX_CHUNKS_PER_PAYLOAD
  omega

lemma chunked_of_body {body data : Bytes} (hbody : body.length = MAX_GOSSIP_MESSAGE_SIZE)
    (hdata : body.length < data.length ∧ data.length ≤ body.length + 40) : Chunked data := by
  rw [hbody] at hdata
  refine chunked_of_length hdata.1 (hdata.2.trans (by decide))

/-- A vertex of a little more than one gossip message, in a shuffled delivery. -/
theorem chunk_transfer_vertex_shuffled :
    ∃ body first between last, body.length = MAX_GOSSIP_MESSAGE_SIZE ∧
      inOrder .dagVertex (0 :: body) = first :: between ++ [last] ∧
      (first.accept sampleP2P ⟨16, 4⟩ (afterArrivals sampleP2P ⟨16, 4⟩ (∅ : Assemblies Nat)
        (last :: ⟨0, 1, first.chunk⟩ :: last :: between.reverse))).1 =
          some (.compressedDagVertex body) := by
  obtain ⟨body, hbody⟩ : ∃ body : Bytes, body.length = MAX_GOSSIP_MESSAGE_SIZE :=
    ⟨List.replicate _ 5, List.length_replicate⟩
  have hchunked : Chunked (0 :: body) := chunked_of_body hbody (by simp)
  obtain ⟨first, between, last, horder, hd⟩ := delivered_shuffled .dagVertex hchunked
  obtain ⟨sent, hsent⟩ :=
    publishMessage_sample (.compressedDagVertex body) rfl rfl hchunked
  exact ⟨body, first, between, last, hbody, horder, (chunk_transfer sampleP2P ⟨16, 4⟩ Nat).1
    _ _ _ _ _ _ hsent rfl rfl hchunked.large rfl _ _ _ _ _ hd⟩

/-- A chunk that is too large is published in chunks, and the receiver rejects what they make. -/
theorem nested_chunk_lost :
    ∃ body sent data, publishMessage sampleP2P (fun _ _ => .ok ()) []
        (.chunk ⟨Vector.replicate 32 7, .peer, 0, 1, body⟩) = .ok sent ∧
      compressLargeMessage sampleP2P (.chunk ⟨Vector.replicate 32 7, .peer, 0, 1, body⟩) =
        .ok (.chunk ⟨Vector.replicate 32 7, .peer, 0, 1, body⟩) ∧
      sampleP2P.encode (.chunk ⟨Vector.replicate 32 7, .peer, 0, 1, body⟩) = .ok data ∧
      MAX_GOSSIP_MESSAGE_SIZE < data.length ∧
      ∃ first between last, inOrder .peer data = first :: between ++ [last] ∧
        Delivered sampleP2P ⟨16, 4⟩ (∅ : Assemblies Nat) 0 .peer data first between last ∧
        (last.accept sampleP2P ⟨16, 4⟩
          (afterArrivals sampleP2P ⟨16, 4⟩ ∅ (first :: between))).1 = none := by
  obtain ⟨body, hbody⟩ : ∃ body : Bytes, body.length = MAX_GOSSIP_MESSAGE_SIZE :=
    ⟨List.replicate _ 5, List.length_replicate⟩
  let chunk : P2PMessageChunk := ⟨Vector.replicate 32 7, .peer, 0, 1, body⟩
  have hchunked : Chunked (chunkBytes chunk) := by
    refine chunked_of_body hbody ?_
    simp only [chunkBytes, chunk, List.length_cons, List.length_append, Text.length_leBytes,
      Vector.length_toList]
    omega
  have hencode : sampleP2P.encode (.chunk chunk) = .ok (chunkBytes chunk) := rfl
  obtain ⟨sent, hsent⟩ := publishMessage_sample (.chunk chunk) rfl hencode hchunked
  obtain ⟨first, between, last, horder, hd⟩ := delivered_inOrder .peer hchunked
  have hdelivered : Delivered sampleP2P ⟨16, 4⟩ (∅ : Assemblies Nat) 0
      (messageTopicKind (.chunk chunk)) _ first between last := hd
  exact ⟨body, sent, _, hsent, rfl, hencode, hchunked.large, first, between, last, horder, hd,
    hdelivered.result hchunked hencode⟩

end Kanari.Proofs
