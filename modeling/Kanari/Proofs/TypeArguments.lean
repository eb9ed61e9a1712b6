import Kanari.TypeArguments

/-!
# Type arguments read back

`parse_type_tag` returns the tag whose text it reads, unless a struct in it lies at the zero address.
-/

namespace Kanari.Proofs

open Lib TypeArgument AccountAddress
open TypeParser (isIdentifierChar)

variable {t : TypeTag} {ts : List TypeTag} {c : Char} {s u v w : List Char} {n : Nat}

/-! ## Tags -/

mutual

/-- `ok` holds of the tag and of every tag inside it. -/
def everyTag (ok : TypeTag → Bool) : TypeTag → Bool
  | .vector elem => ok (.vector elem) && everyTag ok elem
  | .struct address module name typeParams =>
    ok (.struct address module name typeParams) && everyTagOf ok typeParams
  | t => ok t

def everyTagOf (ok : TypeTag → Bool) : List TypeTag → Bool
  | [] => true
  | t :: ts => everyTag ok t && everyTagOf ok ts

end

lemma everyTagOf_iff {ok : TypeTag → Bool} : everyTagOf ok ts = true ↔ ∀ t ∈ ts, everyTag ok t = true := by
  induction ts with
  | nil => simp [everyTagOf]
  | cons t ts ih => simp [everyTagOf, ih]

def argumentKind : TypeTag → Bool
  | .u16 | .u32 | .u256 | .signer => false
  | .struct _ module name _ => isIdentifier module.toList && isIdentifier name.toList
  | _ => true

def namedByItself : TypeTag → Bool
  | .struct _ _ name _ => name != "<SELF>"
  | _ => true

def nonZeroAddress : TypeTag → Bool
  | .struct address _ _ _ => address != .zero
  | _ => true

/-! ## Their texts -/

def text (t : TypeTag) : List Char := t.display.toList

def argsText : List TypeTag → List Char
  | [] => []
  | first :: rest => '<' :: ((text first ++ rest.flatMap fun t => ',' :: ' ' :: text t) ++ ['>'])

lemma displayRest_toList (ts : List TypeTag) :
    (TypeTag.displayRest ts).toList = ts.flatMap fun t => ',' :: ' ' :: text t := by
  induction ts with
  | nil => rfl
  | cons t ts ih =>
    rw [TypeTag.displayRest, String.toList_append, String.toList_append, ih]
    rfl

lemma text_vector (t : TypeTag) : text (.vector t) = "vector".toList ++ ('<' :: (text t ++ ['>'])) := by
  simp [text, TypeTag.display]

lemma text_struct (a : AccountAddress) (module name : String) (ts : List TypeTag) :
    text (.struct a module name ts) = a.toHexLiteral.toList ++ ':' :: ':' ::
      (module.toList ++ ':' :: ':' :: (name.toList ++ argsText ts)) := by
  cases ts with
  | nil => simp [text, TypeTag.display, argsText]
  | cons t ts => simp [text, TypeTag.display, argsText, displayRest_toList]

/-! ## Identifiers -/

lemma identifierChar_ne {d : Char} (h : isIdentifierChar c = true) (hd : isIdentifierChar d = false) : c ≠ d := by
  rintro rfl
  rw [h] at hd
  cases hd

lemma identifierChar_iff : isIdentifierChar c = true ↔
    (c = '_' ∨ ('A'.val ≤ c.val ∧ c.val ≤ 'Z'.val) ∨ 'a'.val ≤ c.val ∧ c.val ≤ 'z'.val) ∨
      '0'.val ≤ c.val ∧ c.val ≤ '9'.val := by
  change (c == '_' || (decide ('A'.val ≤ c.val ∧ c.val ≤ 'Z'.val) ||
    decide ('a'.val ≤ c.val) && decide (c.val ≤ 'z'.val)) ||
    decide ('0'.val ≤ c.val) && decide (c.val ≤ '9'.val)) = true ↔ _
  simp only [Bool.or_eq_true, Bool.and_eq_true, decide_eq_true_eq, beq_iff_eq]

lemma identifierChar_of_hex (h : Hex.isHexDigit c = true) : isIdentifierChar c = true := by
  rw [identifierChar_iff]
  unfold Hex.isHexDigit Hex.hexValue at h
  split_ifs at h with h₁ h₂ h₃
  · exact Or.inr h₁
  · exact Or.inl (Or.inr (Or.inr ⟨h₂.1, UInt32.le_trans h₂.2 (by decide : 'f'.val ≤ 'z'.val)⟩))
  · exact Or.inl (Or.inr (Or.inl ⟨h₃.1, UInt32.le_trans h₃.2 (by decide : 'F'.val ≤ 'Z'.val)⟩))
  · cases h

lemma not_whitespace_of_identifierChar (h : isIdentifierChar c = true) : Text.isWhitespace c = false := by
  have hrange : 48 ≤ c.toNat ∧ c.toNat ≤ 122 := by
    rcases identifierChar_iff.mp h with (rfl | ⟨hlow, hhigh⟩ | ⟨hlow, hhigh⟩) | ⟨hlow, hhigh⟩
    · decide
    · exact ⟨le_trans (by decide) (show 'A'.toNat ≤ c.toNat from hlow),
        le_trans (show c.toNat ≤ 'Z'.toNat from hhigh) (by decide)⟩
    · exact ⟨le_trans (by decide) (show 'a'.toNat ≤ c.toNat from hlow), hhigh⟩
    · exact ⟨hlow, le_trans (show c.toNat ≤ '9'.toNat from hhigh) (by decide)⟩
  unfold Text.isWhitespace
  simp only [Bool.or_eq_false_iff, Bool.and_eq_false_iff, decide_eq_false_iff_not, beq_eq_false_iff_ne]
  omega

lemma identifier_cases (h : isIdentifier w = true) :
    w = "<SELF>".toList ∨ w ≠ [] ∧ ∀ c ∈ w, isIdentifierChar c = true := by
  unfold isIdentifier at h
  split at h
  · exact Or.inl rfl
  · cases h
  · rename_i c rest _
    rw [Bool.and_eq_true, List.all_eq_true] at h
    refine Or.inr ⟨List.cons_ne_nil _ _, ?_⟩
    rintro d (_ | ⟨_, hd⟩)
    · have hc := h.1
      simp only [Bool.or_eq_true, Bool.and_eq_true] at hc
      rcases hc with hc | hc
      · simp [isIdentifierChar, hc]
      · simp [isIdentifierChar, hc.1]
    · exact h.2 d hd

lemma identifierChar_of_mem_literal (a : AccountAddress) (h : c ∈ a.toHexLiteral.toList) :
    isIdentifierChar c = true := by
  rw [toHexLiteral, String.toList_ofList] at h
  rcases List.mem_cons.mp h with rfl | h
  · decide
  rcases List.mem_cons.mp h with rfl | h
  · decide
  exact identifierChar_of_hex (isHexDigit_of_mem_short h)

lemma colon_notMem_literal (a : AccountAddress) : ':' ∉ a.toHexLiteral.toList := by
  intro hmem
  exact identifierChar_ne (identifierChar_of_mem_literal a hmem) (by decide) rfl

/-! ## Commas -/

/-- From this depth on the split takes the text over as a whole. -/
def Passes (least : Nat) (w : List Char) : Prop :=
  ∀ depth part rest, least ≤ depth → splitFrom depth part (w ++ rest) = splitFrom depth (part ++ w) rest

lemma passes_nil : Passes n [] := by
  intro depth part rest _
  simp

lemma Passes.append (hu : Passes n u) (hv : Passes n v) : Passes n (u ++ v) := by
  intro depth part rest hdepth
  rw [List.append_assoc, hu _ _ _ hdepth, hv _ _ _ hdepth, List.append_assoc]

lemma passes_char (hopen : c ≠ '<') (hclose : c ≠ '>') (hcomma : c = ',' → 0 < n) : Passes n [c] := by
  intro depth part rest hdepth
  have hinside : ¬(c = ',' ∧ depth = 0) := by
    rintro ⟨hc, h0⟩
    have := hcomma hc
    omega
  rw [List.singleton_append, splitFrom, if_neg hopen, if_neg hclose, if_neg hinside]

lemma passes_of_identifierChars (h : ∀ c ∈ w, isIdentifierChar c = true) : Passes n w := by
  induction w with
  | nil => exact passes_nil
  | cons c w ih =>
    have hc := h c List.mem_cons_self
    have hchar : Passes n [c] := passes_char (identifierChar_ne hc (by decide)) (identifierChar_ne hc (by decide))
      fun hcomma => absurd hcomma (identifierChar_ne hc (by decide))
    exact hchar.append (ih fun d hd => h d (List.mem_cons_of_mem _ hd))

lemma Passes.brackets (h : Passes (n + 1) w) : Passes n ('<' :: (w ++ ['>'])) := by
  intro depth part rest hdepth
  rw [List.cons_append, splitFrom, if_pos rfl, List.append_assoc, h _ _ _ (by omega), List.singleton_append,
    splitFrom, if_neg (by decide), if_pos rfl, Nat.add_sub_cancel]
  simp

lemma passes_identifier (h : isIdentifier w = true) : Passes n w := by
  rcases identifier_cases h with rfl | ⟨-, hw⟩
  · have hself : Passes (n + 1) "SELF".toList := passes_of_identifierChars (List.all_eq_true.mp rfl)
    exact hself.brackets
  · exact passes_of_identifierChars hw

lemma passes_argsText (h : ∀ t ∈ ts, ∀ n, Passes n (text t)) : Passes n (argsText ts) := by
  cases ts with
  | nil => exact passes_nil
  | cons first rest =>
    have hrest : Passes (n + 1) (rest.flatMap fun t => ',' :: ' ' :: text t) := by
      have htexts : ∀ t ∈ rest, Passes (n + 1) (text t) := fun t ht => h t (List.mem_cons_of_mem _ ht) _
      clear h
      induction rest with
      | nil => exact passes_nil
      | cons t rest ih =>
        -- between the brackets the depth is not zero, so a comma does not cut
        have hcomma : Passes (n + 1) [','] := passes_char (by decide) (by decide) fun _ => Nat.succ_pos n
        have hblank : Passes (n + 1) [' '] := passes_char (by decide) (by decide) fun _ => Nat.succ_pos n
        exact ((hcomma.append hblank).append (htexts t List.mem_cons_self)).append
          (ih fun t' ht' => htexts t' (List.mem_cons_of_mem _ ht'))
    exact ((h first List.mem_cons_self _).append hrest).brackets

lemma passes_colons : Passes n [':', ':'] := by
  have hcolon : Passes n [':'] := passes_char (by decide) (by decide) fun h => absurd h (by decide)
  exact hcolon.append hcolon

mutual

lemma passes_text : ∀ t : TypeTag, everyTag argumentKind t = true → ∀ n, Passes n (text t)
  | .bool, _, _ | .u8, _, _ | .u16, _, _ | .u32, _, _ | .u64, _, _ | .u128, _, _ | .u256, _, _
  | .address, _, _ | .signer, _, _ => passes_of_identifierChars (List.all_eq_true.mp rfl)
  | .vector elem, h, n => by
    rw [everyTag, Bool.and_eq_true] at h
    have hword : Passes n "vector".toList := passes_of_identifierChars (List.all_eq_true.mp rfl)
    rw [text_vector]
    exact hword.append (passes_text elem h.2 (n + 1)).brackets
  | .struct a module name typeParams, h, n => by
    rw [everyTag, Bool.and_eq_true] at h
    have hids := h.1
    rw [argumentKind, Bool.and_eq_true] at hids
    have haddress : Passes n a.toHexLiteral.toList :=
      passes_of_identifierChars fun c hc => identifierChar_of_mem_literal a hc
    have hargs : Passes n (argsText typeParams) := passes_argsText (passes_texts typeParams h.2)
    rw [text_struct]
    exact haddress.append (passes_colons.append ((passes_identifier hids.1).append
      (passes_colons.append ((passes_identifier hids.2).append hargs))))

lemma passes_texts : ∀ ts : List TypeTag, everyTagOf argumentKind ts = true →
    ∀ t ∈ ts, ∀ n, Passes n (text t)
  | [], _ => by simp
  | t :: ts, h => by
    rw [everyTagOf, Bool.and_eq_true] at h
    rintro t' (_ | ⟨_, ht'⟩)
    · exact passes_text t h.1
    · exact passes_texts ts h.2 t' ht'

end

/-! ## Blanks -/

lemma trim_of_ends (hhead : ∀ c ∈ s.head?, Text.isWhitespace c = false)
    (hlast : ∀ c ∈ s.getLast?, Text.isWhitespace c = false) : Text.trim s = s := by
  have hdrop : ∀ l : List Char, (∀ c ∈ l.head?, Text.isWhitespace c = false) →
      l.dropWhile Text.isWhitespace = l := by
    intro l hl
    cases l with
    | nil => rfl
    | cons c l => exact List.dropWhile_cons_of_neg (by simp [hl c rfl])
  rw [Text.trim, hdrop s hhead, hdrop _ (by rwa [List.head?_reverse]), List.reverse_reverse]

lemma identifier_no_whitespace (h : isIdentifier w = true) : ∀ c ∈ w, Text.isWhitespace c = false := by
  rcases identifier_cases h with rfl | ⟨-, hw⟩
  · simp [Text.isWhitespace]
  · exact fun c hc => not_whitespace_of_identifierChar (hw c hc)

lemma identifier_ne_nil (h : isIdentifier w = true) : w ≠ [] := by
  rintro rfl
  cases h

lemma last_of_bracket (u v : List Char) :
    ∀ c ∈ (u ++ '<' :: (v ++ ['>'])).getLast?, Text.isWhitespace c = false := by
  intro c hc
  have hclose : c = '>' := by
    simpa [List.getLast?_append, List.getLast?_cons, eq_comm] using hc
  rw [hclose]
  decide

lemma last_of_name (u : List Char) (h : isIdentifier w = true) :
    ∀ c ∈ (u ++ (w ++ argsText ts)).getLast?, Text.isWhitespace c = false := by
  cases ts with
  | nil =>
    intro c hc
    rw [argsText, List.append_nil, List.getLast?_append_of_ne_nil u (identifier_ne_nil h)] at hc
    exact identifier_no_whitespace h c (List.mem_of_getLast? hc)
  | cons first rest =>
    rw [← List.append_assoc]
    exact last_of_bracket (u ++ w) _

lemma trim_name (h : isIdentifier w = true) : Text.trim (w ++ argsText ts) = w ++ argsText ts := by
  apply trim_of_ends
  · intro c hc
    rw [List.head?_append_of_ne_nil _ (identifier_ne_nil h)] at hc
    exact identifier_no_whitespace h c (List.mem_of_head? hc)
  · exact last_of_name [] h

lemma trim_text (h : everyTag argumentKind t = true) : Text.trim (text t) = text t := by
  cases t with
  | vector elem =>
    rw [text_vector]
    apply trim_of_ends
    · rintro c ⟨⟩
      decide
    · exact last_of_bracket _ _
  | struct a module name typeParams =>
    rw [everyTag, argumentKind, Bool.and_eq_true, Bool.and_eq_true] at h
    rw [text_struct]
    apply trim_of_ends
    · rw [toHexLiteral, String.toList_ofList]
      rintro c ⟨⟩
      decide
    · have hlast : ∀ c ∈ (a.toHexLiteral.toList ++ ':' :: ':' :: (module.toList ++ [':', ':']) ++
          (name.toList ++ argsText typeParams)).getLast?, Text.isWhitespace c = false :=
        last_of_name _ h.1.2
      simpa using hlast
  | _ => rfl

/-! ## The parts of a text -/

lemma text_ne_nil (t : TypeTag) : text t ≠ [] := by
  cases t with
  | vector elem => simp [text_vector]
  | struct a module name typeParams => simp [text_struct]
  | _ => decide

lemma splitFrom_rest (h : everyTagOf argumentKind ts = true) (part : List Char) :
    splitFrom 0 part (ts.flatMap fun t => ',' :: ' ' :: text t) = Text.trim part :: ts.map text := by
  induction ts generalizing part with
  | nil => rfl
  | cons t ts ih =>
    rw [everyTagOf, Bool.and_eq_true] at h
    have hblank : Passes 0 [' '] := passes_char (by decide) (by decide) (by decide)
    have htext : Passes 0 (' ' :: text t) := hblank.append (passes_text t h.1 0)
    have htrim : Text.trim (' ' :: text t) = Text.trim (text t) := rfl
    rw [List.flatMap_cons, List.cons_append, splitFrom, if_neg (by decide), if_neg (by decide),
      if_pos ⟨rfl, rfl⟩, htext _ _ _ (le_refl 0), List.nil_append, ih h.2, htrim, trim_text h.1, List.map_cons]

def genericsOf : List TypeTag → Option (List Char)
  | [] => none
  | first :: rest => some (text first ++ rest.flatMap fun t => ',' :: ' ' :: text t)

lemma splitTopLevelCommas_generics {inner : List Char} (h : everyTagOf argumentKind ts = true)
    (hinner : genericsOf ts = some inner) :
    (splitTopLevelCommas inner).filter (! ·.isEmpty) = ts.map text := by
  cases ts with
  | nil => cases hinner
  | cons first rest =>
    cases hinner
    rw [everyTagOf, Bool.and_eq_true] at h
    rw [splitTopLevelCommas, passes_text first h.1 0 _ _ _ (le_refl 0), List.nil_append,
      splitFrom_rest h.2, trim_text h.1, ← List.map_cons]
    apply List.filter_eq_self.mpr
    intro w hw
    obtain ⟨t, -, rfl⟩ := List.mem_map.mp hw
    simpa using text_ne_nil t

lemma splitGenerics_name (h : isIdentifier w = true) (hself : w ≠ "<SELF>".toList) :
    splitGenerics (w ++ argsText ts) = some (w, genericsOf ts) := by
  have hchars := ((identifier_cases h).resolve_left hself).2
  have hopen : '<' ∉ w := fun hmem => identifierChar_ne (hchars _ hmem) (by decide) rfl
  cases ts with
  | nil => simp [splitGenerics, argsText, genericsOf, hopen]
  | cons first rest =>
    obtain ⟨inner, hinner⟩ : ∃ inner, genericsOf (first :: rest) = some inner := ⟨_, rfl⟩
    have hargs : argsText (first :: rest) = '<' :: (inner ++ ['>']) := by
      cases hinner
      rfl
    have hname : (w ++ '<' :: (inner ++ ['>'])).takeWhile (· ≠ '<') = w := by
      rw [List.takeWhile_append_of_pos (fun c hc => decide_eq_true (identifierChar_ne (hchars c hc) (by decide))),
        List.takeWhile_cons_of_neg (by decide), List.append_nil]
    have hdrop : (w ++ '<' :: (inner ++ ['>'])).drop (w.length + 1) = inner ++ ['>'] := by
      rw [← List.drop_drop, List.drop_left]
      rfl
    have hlast : (w ++ '<' :: (inner ++ ['>'])).getLast? = some '>' := by
      simp [List.getLast?_append, List.getLast?_cons]
    have hlong : ¬(w ++ '<' :: (inner ++ ['>'])).length ≤ w.length + 1 := by
      simp
    rw [splitGenerics, hargs, if_pos (by simp)]
    simp only [hname, hlast, hdrop, hlong, hinner, List.dropLast_concat, ne_eq, not_true_eq_false, or_self,
      if_false, Text.trim_of_no_whitespace (identifier_no_whitespace h)]

/-! ## Colons -/

lemma splitColons_append (hw : ':' ∉ w) : splitColons (w ++ ':' :: ':' :: s) = w :: splitColons s := by
  induction w with
  | nil => rfl
  | cons c w ih =>
    rw [List.mem_cons, not_or] at hw
    rw [List.cons_append, splitColons.eq_3 _ _ (fun _ hc => absurd hc.symm hw.1), ih hw.2]

lemma intercalate_splitColons (s : List Char) :
    ∃ part parts, splitColons s = part :: parts ∧ [':', ':'].intercalate (part :: parts) = s := by
  fun_induction splitColons s with
  | case1 => exact ⟨[], [], rfl, rfl⟩
  | case2 rest ih =>
    obtain ⟨part, parts, hsplit, hjoin⟩ := ih
    refine ⟨[], part :: parts, by rw [hsplit], ?_⟩
    rw [← hjoin]
    rfl
  | case3 c rest hpair hnil ih =>
    obtain ⟨part, parts, hsplit, -⟩ := ih
    rw [hnil] at hsplit
    cases hsplit
  | case4 c rest hpair part parts hsplit ih =>
    obtain ⟨part', parts', hsplit', hjoin⟩ := ih
    rw [hsplit] at hsplit'
    cases hsplit'
    refine ⟨c :: part, parts, rfl, ?_⟩
    rw [← hjoin]
    cases parts with
    | nil => rfl
    | cons part' parts => rfl

lemma colon_notMem (h : isIdentifier w = true) : ':' ∉ w := by
  rcases identifier_cases h with rfl | ⟨-, hw⟩
  · decide
  · exact fun hmem => identifierChar_ne (hw _ hmem) (by decide) rfl

/-! ## Addresses -/

lemma splitOnce_of_notMem {sep : Char} (h : sep ∉ w) : splitOnce sep w = none := by
  induction w with
  | nil => rfl
  | cons c w ih =>
    rw [List.mem_cons, not_or] at h
    rw [splitOnce, if_neg (by simpa using Ne.symm h.1), ih h.2]
    rfl

variable (hashPublicKey : List Char → List Char → Option AccountAddress)

/-- The zero address is the only one that does not read back. -/
lemma parseToAccountAddress_literal (a : AccountAddress) :
    parseToAccountAddress hashPublicKey a.toHexLiteral = if a != .zero then some a else none := by
  have hsplit := splitOnce_of_notMem (colon_notMem_literal a)
  have hread := fromHexLiteral_toHexLiteral a
  have hempty : a.shortStrLossless.isEmpty = false := by simpa using short_ne_nil a
  rw [toHexLiteral] at hsplit hread ⊢
  rw [fromHexLiteral] at hread
  simp only [String.toList_ofList] at hread hsplit
  have hmark : ('0' :: 'x' :: a.shortStrLossless).take 2 = ['0', 'x'] := rfl
  rw [parseToAccountAddress, String.toList_ofList, if_pos (Or.inl hmark), kanariFromHexLiteral, hsplit]
  simp only [kanariFromHex, hempty, hread, Option.filter]
  rfl

/-! ## Whole tags -/

lemma mapM_texts {read : List Char → Option TypeTag}
    (h : ∀ t ∈ ts, read (text t) = if everyTag nonZeroAddress t then some t else none) :
    (ts.map text).mapM read = if everyTagOf nonZeroAddress ts then some ts else none := by
  induction ts with
  | nil => rfl
  | cons t ts ih =>
    have hrest := ih fun t' ht' => h t' (List.mem_cons_of_mem _ ht')
    rw [List.map_cons, List.mapM_cons, h t List.mem_cons_self, hrest, everyTagOf]
    cases everyTag nonZeroAddress t <;> cases everyTagOf nonZeroAddress ts <;> rfl

lemma length_text_of_mem (ht : t ∈ ts) : (text t).length < (argsText ts).length := by
  cases ts with
  | nil => cases ht
  | cons first rest =>
    have hrest : t ∈ rest → (text t).length < (rest.flatMap fun t => ',' :: ' ' :: text t).length := by
      intro ht
      have hpart : ',' :: ' ' :: text t ∈ rest.map fun t => ',' :: ' ' :: text t := List.mem_map_of_mem ht
      have hlen := (List.sublist_flatten_of_mem hpart).length_le
      rw [List.flatMap_def]
      simp only [List.length_cons] at hlen
      omega
    simp only [argsText, List.length_cons, List.length_append]
    rcases List.mem_cons.mp ht with rfl | ht
    · omega
    · have := hrest ht
      omega

lemma parse_vector (fuel : Nat) (h : everyTag argumentKind (.vector t) = true) :
    parse hashPublicKey (fuel + 1) (text (.vector t)) = (parse hashPublicKey fuel (text t)).map .vector := by
  have hinner : vectorInner (text (.vector t)) = some (text t) := by
    rw [text_vector]
    simp [vectorInner]
  have hplain : primitive (text (.vector t)) = none := by
    rw [text_vector]
    rfl
  rw [parse]
  simp only [trim_text h, hplain, hinner, Option.none_or]

lemma parse_struct (fuel : Nat) (a : AccountAddress) (module name : String)
    (h : everyTag argumentKind (.struct a module name ts) = true) (hself : name ≠ "<SELF>") :
    parse hashPublicKey (fuel + 1) (text (.struct a module name ts)) =
      if a != .zero then
        ((ts.map text).mapM (parse hashPublicKey fuel)).map (.struct a module name)
      else none := by
  have htrim := trim_text h
  rw [everyTag, argumentKind, Bool.and_eq_true, Bool.and_eq_true] at h
  obtain ⟨⟨hmodule, hname⟩, hparams⟩ := h
  have hplain : primitive (text (.struct a module name ts)) = none := by
    rw [text_struct, toHexLiteral, String.toList_ofList]
    rfl
  have hvector : vectorInner (text (.struct a module name ts)) = none := by
    rw [text_struct, toHexLiteral, String.toList_ofList]
    rfl
  obtain ⟨part, parts, hsplit, hjoin⟩ := intercalate_splitColons (name.toList ++ argsText ts)
  have hcolons : splitColons (text (.struct a module name ts)) =
      a.toHexLiteral.toList :: module.toList :: part :: parts := by
    rw [text_struct, splitColons_append (colon_notMem_literal a), splitColons_append (colon_notMem hmodule), hsplit]
  have hself' : name.toList ≠ "<SELF>".toList := fun heq => hself (String.toList_inj.mp heq)
  have hliteral : Text.trim a.toHexLiteral.toList = a.toHexLiteral.toList :=
    Text.trim_of_no_whitespace fun c hc =>
      not_whitespace_of_identifierChar (identifierChar_of_mem_literal a hc)
  rw [parse]
  simp only [htrim, hplain, hvector, hcolons, hjoin, trim_name hname, splitGenerics_name hname hself', hliteral,
    Text.trim_of_no_whitespace (identifier_no_whitespace hmodule), identifier, hmodule, if_true,
    String.ofList_toList, parseToAccountAddress_literal, Option.none_or]
  cases a != .zero with
  | false => rfl
  | true =>
    simp only [Option.bind_eq_bind, Option.bind_some, if_true, hname, String.ofList_toList]
    cases hgenerics : genericsOf ts with
    | none =>
      cases ts with
      | nil => rfl
      | cons first rest => cases hgenerics
    | some inner =>
      simp only [splitTopLevelCommas_generics hparams hgenerics]
      cases (ts.map text).mapM (parse hashPublicKey fuel) <;> rfl

lemma parse_text (fuel : Nat) : ∀ t : TypeTag, everyTag argumentKind t = true →
    everyTag namedByItself t = true → (text t).length < fuel →
    parse hashPublicKey fuel (text t) = if everyTag nonZeroAddress t then some t else none := by
  induction fuel with
  | zero =>
    intro t _ _ hfuel
    omega
  | succ fuel ih =>
    intro t harg hname hfuel
    -- what stands between brackets is shorter than the whole, so one unit less is enough for it
    cases t with
    | vector elem =>
      have hinner : (text elem).length < fuel := by
        rw [text_vector] at hfuel
        simp only [List.length_append, List.length_cons] at hfuel
        omega
      have helem : everyTag nonZeroAddress (.vector elem) = everyTag nonZeroAddress elem := rfl
      rw [parse_vector hashPublicKey fuel harg, ih elem harg hname hinner, helem]
      cases everyTag nonZeroAddress elem <;> rfl
    | struct a module name typeParams =>
      have hself : name ≠ "<SELF>" := by
        rw [everyTag, Bool.and_eq_true] at hname
        exact bne_iff_ne.mp hname.1
      have hparams : ∀ t ∈ typeParams, parse hashPublicKey fuel (text t) =
          if everyTag nonZeroAddress t then some t else none := by
        intro t ht
        rw [everyTag, Bool.and_eq_true, everyTagOf_iff] at harg hname
        have hlen := length_text_of_mem ht
        rw [text_struct] at hfuel
        simp only [List.length_append, List.length_cons] at hfuel
        exact ih t (harg.2 t ht) (hname.2 t ht) (by omega)
      rw [parse_struct hashPublicKey fuel a module name harg hself, mapM_texts hparams, everyTag, nonZeroAddress]
      cases a != .zero <;> cases everyTagOf nonZeroAddress typeParams <;> rfl
    | u16 | u32 | u256 | signer => cases harg
    | bool | u8 | u64 | u128 | address => rfl

/-- Every tag that type arguments are built from reads back from its text, at any depth, if no struct
in it lies at the zero address; a tag with such a struct is refused. -/
theorem type_arguments_round_trip (t : TypeTag) (hkinds : everyTag argumentKind t = true)
    (hnames : everyTag namedByItself t = true) :
    parseTypeTag hashPublicKey t.display = if everyTag nonZeroAddress t then some t else none := by
  have hlen : t.display.length < t.display.length + 1 := Nat.lt_succ_self _
  rw [← String.length_toList] at hlen
  exact parse_text hashPublicKey _ t hkinds hnames hlen

def nestedType : TypeTag :=
  .struct kanariSystemAccountAddress "table" "Table"
    [.vector .u8, .struct kanariSystemAccountAddress "coin" "Coin" [.struct stdAccountAddress "m" "T" []]]

theorem type_arguments_round_trip_nested :
    parseTypeTag (fun _ _ => none) nestedType.display = some nestedType :=
  type_arguments_round_trip (fun _ _ => none) nestedType (by decide +kernel) (by decide +kernel)

def zeroType : TypeTag := .struct .zero "m" "N" []

theorem zero_type_refused : ¬ ∀ (hashPublicKey : List Char → List Char → Option AccountAddress) (t : TypeTag),
    everyTag argumentKind t = true → parseTypeTag hashPublicKey t.display = some t := by
  intro h
  have hread := h (fun _ _ => none) zeroType (by decide +kernel)
  have hnone : parseTypeTag (fun _ _ => none) zeroType.display = none :=
    Option.isNone_iff_eq_none.mp (by decide +kernel)
  rw [hnone] at hread
  cases hread

end Kanari.Proofs
