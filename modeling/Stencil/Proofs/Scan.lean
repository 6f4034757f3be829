import Stencil.Proofs.Json

/-! Reading what spells a value. A reader takes the spelling of a value off the front of a text, with the blanks
    before it, whatever follows; only a number must not be followed by more of a number. A reader of lists gets the
    items in their order, and one of objects takes the members in theirs. -/

namespace Stencil.Json

variable {α β σ : Type} {c : Char} {cs word before rest : List Char}

/-- Whether a number ends before a character. -/
def isEnd (c : Char) : Bool := !(c.isDigit || c == '.' || c == 'e' || c == 'E')

def Ends (rest : List Char) : Prop := ∀ c, rest.head? = some c → isEnd c = true

/-- A reader that takes the spelling of a value off the front of any text. -/
def Reads (x : Scan α) (word : List Char) (a : α) : Prop :=
  ∀ before rest, Blank before → Ends rest → x (before ++ (word ++ rest)) = .ok (a, rest)

theorem Reads.front {x : Scan α} {a : α} (h : Reads x word a) (hrest : Ends rest) : x (word ++ rest) = .ok (a, rest) :=
  h [] rest blank_nil hrest

/-- A reader that takes every spelling of a value as the same. -/
def ReadsAs (x : Scan α) (v : Tree) (a : α) : Prop := ∀ word, Spells v word → Reads x word a

/-- A reader that comes to one result for every spelling of a value: it reads the value, or refuses it for one fault,
    whatever follows. -/
def YieldsAs (x : Scan α) (v : Tree) (result : Except Fault α) : Prop := ∀ word, Spells v word → ∀ before rest,
  Blank before → Ends rest → x (before ++ (word ++ rest)) = result.map fun a => (a, rest)

theorem readsAs_iff_yieldsAs {x : Scan α} {v : Tree} {a : α} : ReadsAs x v a ↔ YieldsAs x v (.ok a) := Iff.rfl

theorem YieldsAs.front {x : Scan α} {v : Tree} {result : Except Fault α} (h : YieldsAs x v result)
    (hword : Spells v word) (hrest : Ends rest) : x (word ++ rest) = result.map fun a => (a, rest) :=
  h word hword [] rest blank_nil hrest

theorem isEnd_of_isBlank (h : Scan.isBlank c = true) : isEnd c = true := by
  simp only [Scan.isBlank, Bool.or_eq_true, decide_eq_true_eq] at h
  rcases h with ((rfl | rfl) | rfl) | rfl <;> rfl

theorem ends_cons (h : isEnd c = true) : Ends (c :: cs) := by
  rintro _ ⟨⟩
  exact h

theorem Blank.ends_append_cons (hb : Blank before) (h : isEnd c = true) : Ends (before ++ c :: cs) := by
  cases before with
  | nil => exact ends_cons h
  | cons b before => exact ends_cons (isEnd_of_isBlank (hb b List.mem_cons_self))

theorem Blank.ends (hb : Blank cs) : Ends cs := by
  cases cs with
  | nil => rintro _ ⟨⟩
  | cons b before => exact ends_cons (isEnd_of_isBlank (hb b List.mem_cons_self))

/-! ### Steps -/

namespace Scan

theorem bind_eq {x : Scan α} {f : α → Scan β} {s s' : List Char} {a : α} (h : x s = .ok (a, s')) :
    (x >>= f) s = f a s' := by
  simp only [bind, StateT.bind, h, Except.bind]

theorem ok_bind (a : α) (f : α → Except Fault β) : (Except.ok a >>= f) = f a := rfl

theorem bind_map {x : Scan α} {f : α → Scan β} {s s' : List Char} {result : Except Fault α}
    (h : x s = result.map fun a => (a, s')) : (x >>= f) s = result >>= fun a => f a s' := by
  cases result with
  | ok a => exact bind_eq h
  | error fault => simp only [bind, StateT.bind, h, Except.map, Except.bind]

theorem peek_blank (hb : Blank before) (hc : isBlank c = false) (rest : List Char) :
    peek (before ++ c :: rest) = .ok (some c, c :: rest) := by
  have hdrop : (before ++ c :: rest).dropWhile isBlank = c :: rest := by
    rw [List.dropWhile_append_of_pos hb, List.dropWhile_cons_of_neg (by simp [hc])]
  simp only [peek, hdrop, List.head?_cons]

/-- What looks at the next character sees the first one that is no blank. -/
theorem bind_peek (hb : Blank before) (hc : isBlank c = false) (rest : List Char) (f : Option Char → Scan α) :
    (peek >>= f) (before ++ c :: rest) = f (some c) (c :: rest) := bind_eq (peek_blank hb hc rest)

theorem skip_cons (c : Char) (rest : List Char) : skip (c :: rest) = .ok ((), rest) := rfl

theorem colon_blank (hb : Blank before) (rest : List Char) : colon (before ++ ':' :: rest) = .ok ((), rest) := by
  unfold colon
  rw [bind_peek hb rfl]
  rfl

theorem list_open (hb : Blank before) (item : Scan α) (rest : List Char) :
    list item (before ++ '[' :: rest) = items item rest := by
  unfold list
  rw [bind_peek hb rfl]
  rfl

theorem object_open (hb : Blank before) (member : σ → String → Scan σ) (state : σ) (rest : List Char) :
    object member state (before ++ '\x7b' :: rest) = members member state rest := by
  unfold object
  rw [bind_peek hb rfl]
  rfl

end Scan

/-! ### Texts -/

theorem isTrailing_of_isLeading {n : Nat} (h : isLeading n = true) : isTrailing n = false := by
  simp only [isLeading, Bool.and_eq_true, decide_eq_true_eq] at h
  simp only [isTrailing, Bool.and_eq_false_iff, decide_eq_false_iff_not]
  omega

theorem textTail_spellsChar (h : SpellsChar c word) (rest : List Char) :
    textTail (word ++ rest) = (textTail rest).map fun (cs, s) => (c :: cs, s) := by
  cases h with
  | plain hcontrol hquote hbackslash =>
    rw [List.singleton_append, textTail, if_neg (Char.not_lt.mpr hcontrol)]
    · exact hquote
    · exact hbackslash
  | short h =>
    unfold unescape? at h
    split at h <;> cases h <;> rfl
  | unit hn hleading htrailing =>
    simp only [List.cons_append, List.nil_append, textTail, hn, hleading, htrailing, Bool.false_eq_true, if_false]
  | pair hn hleading hn' htrailing =>
    simp only [List.cons_append, List.nil_append, textTail, hn, hleading, isTrailing_of_isLeading hleading, hn',
      htrailing, Bool.false_eq_true, if_true, if_false]

theorem textTail_spellsChars (h : SpellsChars cs word) (rest : List Char) :
    textTail (word ++ '"' :: rest) = .ok (cs, rest) := by
  induction h with
  | nil => rfl
  | cons hc _ ih =>
    rw [List.append_assoc, textTail_spellsChar hc, ih]
    rfl

theorem textRest_spells {s : String} (h : SpellsChars s.toList word) (rest : List Char) :
    Scan.textRest (word ++ '"' :: rest) = .ok (s, rest) := by
  simp only [Scan.textRest, textTail_spellsChars h, Except.map, String.ofList_toList]

theorem key_blank {s : String} (h : SpellsChars s.toList word) (hb : Blank before) (rest : List Char) :
    Scan.key (before ++ '"' :: (word ++ '"' :: rest)) = .ok (s, rest) := by
  unfold Scan.key
  rw [Scan.bind_peek hb rfl]
  exact textRest_spells h rest

theorem reads_text (s : String) : ReadsAs Scan.text (.text s) s := by
  intro word h before rest hb _
  cases h with
  | text h =>
    rw [List.cons_append, List.append_assoc]
    unfold Scan.text
    rw [Scan.bind_peek hb rfl]
    exact textRest_spells h rest

/-! ### Numbers -/

theorem le_ofDigitChars (digits : List Char) (n : Nat) : n ≤ Nat.ofDigitChars 10 digits n := by
  induction digits generalizing n with
  | nil => exact Nat.le_refl n
  | cons c digits ih =>
    rw [Nat.ofDigitChars_cons]
    exact Nat.le_trans (by omega) (ih _)

theorem absorb_of_le {digits : List Char} {n : Nat} (h : Nat.ofDigitChars 10 digits n ≤ maxWhole) :
    absorb n digits = (Nat.ofDigitChars 10 digits n, 0) := by
  induction digits generalizing n with
  | nil => rfl
  | cons c digits ih =>
    rw [Nat.ofDigitChars_cons, Nat.mul_comm] at h ⊢
    have hle : n * 10 + (c.toNat - 48) ≤ maxWhole := Nat.le_trans (le_ofDigitChars digits _) h
    rw [absorb, if_pos hle]
    exact ih h

/-- No number but zero is written with a zero in front. -/
theorem head?_toDigits {n : Nat} (h : 0 < n) : (Nat.toDigits 10 n).head? ≠ some '0' := by
  induction n using Nat.strongRecOn with
  | ind n ih =>
    by_cases hn : n < 10
    · have hdigit : ∀ d : Nat, d < 10 → 0 < d → [d.digitChar].head? ≠ some '0' := by decide
      rw [Nat.toDigits_of_lt_base hn]
      exact hdigit n hn h
    · rw [Nat.toDigits_of_base_le (by decide) (by omega), List.head?_append_of_ne_nil _ Nat.toDigits_ne_nil]
      exact ih (n / 10) (by omega) (by omega)

theorem takeWhile_digits {digits : List Char} (hdigits : ∀ c ∈ digits, c.isDigit = true) (hrest : Ends rest) :
    (digits ++ rest).takeWhile Char.isDigit = digits ∧ (digits ++ rest).dropWhile Char.isDigit = rest := by
  rw [List.takeWhile_append_of_pos hdigits, List.dropWhile_append_of_pos hdigits]
  cases rest with
  | nil => exact ⟨List.append_nil digits, rfl⟩
  | cons c rest =>
    have hc : c.isDigit = false := by
      have hend := hrest c rfl
      simp only [isEnd, Bool.not_eq_true', Bool.or_eq_false_iff] at hend
      exact hend.1.1.1
    rw [List.takeWhile_cons_of_neg (by simp [hc]), List.dropWhile_cons_of_neg (by simp [hc])]
    exact ⟨List.append_nil digits, rfl⟩

theorem isDigit_of_mem_repr {n : Nat} (h : c ∈ (Nat.repr n).toList) : c.isDigit = true := by
  rw [Nat.toList_repr] at h
  exact Nat.isDigit_of_mem_toDigits (by decide) (by decide) h

theorem unsigned_repr {n : Nat} (h : n ≤ maxWhole) (hrest : Ends rest) :
    unsigned ((Nat.repr n).toList ++ rest) = .ok (some n, rest) := by
  have hvalue : Nat.ofDigitChars 10 (Nat.repr n).toList 0 = n := by
    rw [Nat.toList_repr, Nat.ofDigitChars_ten_toDigits]
  have hle : Nat.ofDigitChars 10 (Nat.repr n).toList 0 ≤ maxWhole := by rwa [hvalue]
  have habsorb := absorb_of_le hle
  rw [hvalue] at habsorb
  have hzero : ∀ d digits, (Nat.repr n).toList ≠ '0' :: d :: digits := by
    rw [Nat.toList_repr]
    intro d digits heq
    by_cases hn : 0 < n
    · exact head?_toDigits hn (congrArg List.head? heq)
    · rw [Nat.eq_zero_of_not_pos hn] at heq
      cases heq
  obtain ⟨htake, hdrop⟩ := takeWhile_digits (fun _ => isDigit_of_mem_repr (n := n)) hrest
  unfold unsigned
  simp only [htake, hdrop]
  split
  · rename_i hnil
    rw [Nat.toList_repr] at hnil
    exact absurd hnil Nat.toDigits_ne_nil
  · rename_i heq
    exact absurd heq (hzero _ _)
  · rw [habsorb]
    dsimp only
    split
    · exact absurd (hrest _ rfl) (by decide)
    · exact absurd (hrest _ rfl) (by decide)
    · exact absurd (hrest _ rfl) (by decide)
    · rfl

theorem head_repr (n : Nat) : ∃ c digits, (Nat.repr n).toList = c :: digits ∧ c.isDigit = true := by
  have hdigit : ∀ c ∈ (Nat.repr n).toList, c.isDigit = true := fun _ => isDigit_of_mem_repr
  cases hlist : (Nat.repr n).toList with
  | nil =>
    rw [Nat.toList_repr] at hlist
    exact absurd hlist Nat.toDigits_ne_nil
  | cons c digits => exact ⟨c, digits, rfl, hdigit c (hlist ▸ List.mem_cons_self)⟩

theorem isBlank_of_isDigit (h : c.isDigit = true) : Scan.isBlank c = false := by
  by_contra hblank
  simp only [Scan.isBlank, Bool.not_eq_false, Bool.or_eq_true, decide_eq_true_eq] at hblank
  rcases hblank with ((rfl | rfl) | rfl) | rfl <;> cases h

theorem reads_whole {n : Nat} (hn : n ≤ maxWhole) : ReadsAs Scan.whole (.whole n) n := by
  intro word h before rest hb hrest
  cases h
  obtain ⟨c, digits, hlist, hc⟩ := head_repr n
  have hnumber : Scan.number (c :: (digits ++ rest)) = .ok (some n, rest) :=
    List.cons_append ▸ hlist ▸ unsigned_repr hn hrest
  rw [hlist, List.cons_append]
  unfold Scan.whole
  rw [Scan.bind_peek hb (isBlank_of_isDigit hc)]
  dsimp only
  rw [if_pos hc, Scan.bind_eq hnumber]
  rfl

/-! ### Lists -/

section Sequences
variable {R : α → List Char → Prop} {close opening : Char} {as : List α}

theorem More.ends_append (h : More R close as word) (hclose : isEnd close = true) (rest : List Char) :
    Ends (word ++ rest) := by
  cases h with
  | stop hb =>
    rw [List.append_assoc]
    exact hb.ends_append_cons hclose
  | next hb _ _ _ =>
    rw [List.append_assoc]
    exact hb.ends_append_cons rfl

/-- Every part takes a character at least. -/
theorem More.length_lt (h : More R close as word) : as.length < word.length := by
  induction h with
  | stop _ =>
    simp only [List.length_append, List.length_cons, List.length_nil]
    omega
  | next _ _ _ _ ih =>
    simp only [List.length_append, List.length_cons]
    omega

theorem More.length_lt_append (h : More R close as word) (rest : List Char) :
    as.length < (word ++ rest).length + 1 := by
  have hlt := h.length_lt
  rw [List.length_append]
  omega

end Sequences

/-- What spells a value begins with no blank and closes no list. -/
theorem Spells.head {v : Tree} (h : Spells v word) :
    ∃ c cs, word = c :: cs ∧ Scan.isBlank c = false ∧ c ≠ ']' := by
  cases h with
  | whole n =>
    obtain ⟨c, digits, hlist, hc⟩ := head_repr n
    exact ⟨c, digits, hlist, isBlank_of_isDigit hc, by rintro rfl; cases hc⟩
  | text h => exact ⟨_, _, rfl, rfl, by decide⟩
  | list h => cases h <;> exact ⟨_, _, rfl, rfl, by decide⟩
  | object h => cases h <;> exact ⟨_, _, rfl, rfl, by decide⟩

theorem moreItems_more {item : Scan α} {items : List Tree} {results : List (Except Fault α)}
    (h : List.Forall₂ (YieldsAs item) items results) (hmore : More Spells ']' items word) {fuel : Nat}
    (hfuel : items.length < fuel) (rest : List Char) :
    Scan.moreItems item fuel (word ++ rest) = (results.mapM id).map fun as => (as, rest) := by
  induction h generalizing word fuel with
  | nil =>
    obtain ⟨fuel, rfl⟩ := Nat.exists_eq_succ_of_ne_zero (Nat.ne_of_gt hfuel)
    cases hmore with
    | stop hb =>
      rw [List.append_assoc, List.singleton_append]
      unfold Scan.moreItems
      rw [Scan.bind_peek hb rfl]
      rfl
  | @cons _ result _ results hitem _ ih =>
    obtain ⟨fuel, rfl⟩ := Nat.exists_eq_succ_of_ne_zero (Nat.ne_of_gt (Nat.zero_lt_of_lt hfuel))
    cases hmore with
    | @next b c word more _ _ hb hc hword hmore =>
      obtain ⟨d, cs, heq, hd, hclose⟩ := hword.head
      have hread := hitem.front hword (hmore.ends_append rfl rest)
      simp only [heq, List.cons_append] at hread
      simp only [List.append_assoc, List.cons_append, heq]
      unfold Scan.moreItems
      rw [Scan.bind_peek hb rfl]
      change (Scan.skip >>= _) _ = _
      rw [Scan.bind_eq (Scan.skip_cons _ _), Scan.bind_peek hc hd]
      -- The match sees that the item's first character closes no list.
      simp only
      rw [Scan.bind_map hread, List.mapM_cons]
      cases result with
      | error fault => rfl
      | ok a =>
        rw [Scan.ok_bind, Scan.bind_map (ih hmore (Nat.lt_of_succ_lt_succ hfuel))]
        cases results.mapM id <;> rfl

/-- A reader of lists comes to the first fault of an item, or to what all items are read as. -/
theorem yields_list {item : Scan α} {items : List Tree} {results : List (Except Fault α)}
    (h : List.Forall₂ (YieldsAs item) items results) :
    YieldsAs (Scan.list item) (.list items) (results.mapM id) := by
  intro word hword before rest hb hrest
  cases hword with
  | list hword =>
    cases hword with
    | none hb' =>
      cases h
      simp only [List.append_assoc, List.cons_append, List.nil_append]
      rw [Scan.list_open hb]
      unfold Scan.items
      rw [Scan.bind_peek hb' rfl]
      rfl
    | @some b first more _ _ hb' hfirst hmore =>
      cases h with
      | @cons _ result _ results hitem hitems =>
        obtain ⟨d, cs, heq, hd, hclose⟩ := hfirst.head
        have hread := hitem.front hfirst (hmore.ends_append rfl rest)
        simp only [heq, List.cons_append] at hread
        simp only [List.append_assoc, List.cons_append, heq]
        rw [Scan.list_open hb]
        unfold Scan.items
        rw [Scan.bind_peek hb' hd]
        simp only
        rw [Scan.bind_map hread, List.mapM_cons]
        cases result with
        | error fault => rfl
        | ok a =>
          have hfuel := hmore.length_lt_append rest
          rw [Scan.ok_bind, Scan.bind_eq (s := more ++ rest) rfl,
            Scan.bind_map (moreItems_more hitems hmore hfuel rest)]
          cases results.mapM id <;> rfl

theorem reads_list {item : Scan α} {items : List Tree} {as : List α} (h : List.Forall₂ (ReadsAs item) items as) :
    ReadsAs (Scan.list item) (.list items) as := by
  have hread : YieldsAs (Scan.list item) (.list items) ((as.map .ok).mapM id) :=
    yields_list (List.forall₂_map_right_iff.mpr h)
  have hall : (as.map Except.ok : List (Except Fault α)).mapM id = .ok as :=
    Result.mapM_eq_ok_iff.mpr (List.forall₂_map_left_iff.mpr (List.forall₂_same.mpr fun _ _ => rfl))
  rwa [hall] at hread

/-! ### Objects -/

/-- A reader of members that takes a value behind its key, however it is spelled, and passes to a new state. -/
def ReadsMember (member : σ → String → Scan σ) (state : σ) (key : String) (v : Tree) (state' : σ) : Prop :=
  ∀ b c word rest, Blank b → Blank c → Spells v word → Ends rest →
    member state key (b ++ ':' :: (c ++ (word ++ rest))) = .ok (state', rest)

/-- What a reader of members makes of a state, member after member. -/
inductive Folds (member : σ → String → Scan σ) : σ → List (String × Tree) → σ → Prop
  | nil {state : σ} : Folds member state [] state
  | cons {state state' state'' : σ} {key : String} {v : Tree} {members : List (String × Tree)} :
    ReadsMember member state key v state' → Folds member state' members state'' →
    Folds member state ((key, v) :: members) state''

variable {member : σ → String → Scan σ} {state state' : σ} {members : List (String × Tree)}

/-- A reader of members that comes to one result for a value behind its key, however it is spelled. -/
def YieldsMember (member : σ → String → Scan σ) (state : σ) (key : String) (v : Tree) (result : Except Fault σ) : Prop :=
  ∀ b c word rest, Blank b → Blank c → Spells v word → Ends rest →
    member state key (b ++ ':' :: (c ++ (word ++ rest))) = result.map fun state' => (state', rest)

theorem ReadsMember.yields {key : String} {v : Tree} (h : ReadsMember member state key v state') :
    YieldsMember member state key v (.ok state') := h

/-- What a reader of members comes to, member after member. The first member that it refuses is the last one that it
    looks at. -/
inductive Runs (member : σ → String → Scan σ) : σ → List (String × Tree) → Except Fault σ → Prop
  | nil {state : σ} : Runs member state [] (.ok state)
  | cons {state state' : σ} {result : Except Fault σ} {key : String} {v : Tree} {members : List (String × Tree)} :
    ReadsMember member state key v state' → Runs member state' members result →
    Runs member state ((key, v) :: members) result
  | refused {state : σ} {fault : Fault} {key : String} {v : Tree} {members : List (String × Tree)} :
    YieldsMember member state key v (.error fault) → Runs member state ((key, v) :: members) (.error fault)

theorem Folds.runs (h : Folds member state members state') : Runs member state members (.ok state') := by
  induction h with
  | nil => exact .nil
  | cons hmember _ ih => exact .cons hmember ih

theorem Member.head {m : String × Tree} (h : Member Spells m word) : ∃ cs, word = '"' :: cs := by
  cases h
  exact ⟨_, rfl⟩

/-- A member comes to what the value behind its colon comes to. -/
theorem yieldsMember {key : String} {x : Scan α} {f : α → σ}
    (heq : member state key = (do Scan.colon; return f (← x))) {v : Tree} {result : Except Fault α}
    (h : YieldsAs x v result) : YieldsMember member state key v (result.map f) := by
  intro b c word rest hb hc hword hrest
  rw [heq, Scan.bind_eq (Scan.colon_blank hb _), Scan.bind_map (h word hword c rest hc hrest)]
  cases result <;> rfl

theorem readsMember {key : String} {x : Scan α} {f : α → σ}
    (heq : member state key = (do Scan.colon; return f (← x))) {v : Tree} {a : α} (h : ReadsAs x v a) :
    ReadsMember member state key v (f a) := yieldsMember heq (readsAs_iff_yieldsAs.mp h)

/-- A member that stands before blanks or a mark is read with its key. -/
theorem bind_key_member {key : String} {v : Tree} {result : Except Fault σ} (hword : Member Spells (key, v) word)
    (hb : Blank before) (h : YieldsMember member state key v result) (hrest : Ends rest) :
    (Scan.key >>= member state) (before ++ (word ++ rest)) = result.map fun state' => (state', rest) := by
  cases hword with
  | mk hk hb' hc hv =>
    simp only [List.append_assoc, List.cons_append]
    rw [Scan.bind_eq (key_blank hk hb _)]
    exact h _ _ _ _ hb' hc hv hrest

/-- Behind a comma the next member is read, and then those after it. -/
theorem moreMembers_next {key : String} {v : Tree} {result : Except Fault σ} {b c more : List Char} (hb : Blank b)
    (hc : Blank c) (hword : Member Spells (key, v) word) (h : YieldsMember member state key v result)
    (hmore : Ends more) (fuel : Nat) :
    Scan.moreMembers member (fuel + 1) state (b ++ ',' :: (c ++ (word ++ more))) =
      result >>= fun state' => Scan.moreMembers member fuel state' more := by
  rw [Scan.moreMembers, Scan.bind_peek hb rfl]
  change (Scan.skip >>= _) _ = _
  rw [Scan.bind_eq (Scan.skip_cons _ _), ← bind_assoc, Scan.bind_map (bind_key_member hword hc h hmore)]

theorem moreMembers_more {result : Except Fault σ} (h : Runs member state members result)
    (hmore : More (Member Spells) '\x7d' members word) {fuel : Nat} (hfuel : members.length < fuel)
    (rest : List Char) :
    Scan.moreMembers member fuel state (word ++ rest) = result.map fun state' => (state', rest) := by
  induction h generalizing word fuel with
  | nil =>
    obtain ⟨fuel, rfl⟩ := Nat.exists_eq_succ_of_ne_zero (Nat.ne_of_gt hfuel)
    cases hmore with
    | stop hb =>
      rw [List.append_assoc, List.singleton_append]
      unfold Scan.moreMembers
      rw [Scan.bind_peek hb rfl]
      rfl
  | cons hmember _ ih =>
    obtain ⟨fuel, rfl⟩ := Nat.exists_eq_succ_of_ne_zero (Nat.ne_of_gt (Nat.zero_lt_of_lt hfuel))
    cases hmore with
    | next hb hc hword hmore =>
      simp only [List.append_assoc, List.cons_append]
      rw [moreMembers_next hb hc hword hmember.yields (hmore.ends_append rfl rest)]
      exact ih hmore (Nat.lt_of_succ_lt_succ hfuel)
  | refused hmember =>
    obtain ⟨fuel, rfl⟩ := Nat.exists_eq_succ_of_ne_zero (Nat.ne_of_gt (Nat.zero_lt_of_lt hfuel))
    cases hmore with
    | next hb hc hword hmore =>
      simp only [List.append_assoc, List.cons_append]
      rw [moreMembers_next hb hc hword hmember (hmore.ends_append rfl rest)]
      rfl

/-- Behind the opening brace the first member is read, and then those after it. -/
theorem members_first {key : String} {v : Tree} {result : Except Fault σ} {b more : List Char} (hb : Blank b)
    (hword : Member Spells (key, v) word) (h : YieldsMember member state key v result) (hmore : Ends more) :
    Scan.members member state (b ++ (word ++ more)) =
      result >>= fun state' => Scan.moreMembers member (more.length + 1) state' more := by
  obtain ⟨cs, rfl⟩ := hword.head
  have hread := bind_key_member hword blank_nil h hmore
  simp only [List.cons_append, List.nil_append] at hread ⊢
  unfold Scan.members
  rw [Scan.bind_peek hb rfl]
  change (Scan.key >>= _) _ = _
  rw [← bind_assoc, Scan.bind_map hread]
  cases result <;> rfl

/-- A reader of objects comes to what its reader of members comes to. -/
theorem yields_object {result : Except Fault σ} (h : Runs member state members result) :
    YieldsAs (Scan.object member state) (.object members) result := by
  intro word hword before rest hb hrest
  cases hword with
  | object hword =>
    cases hword with
    | none hb' =>
      cases h
      simp only [List.append_assoc, List.cons_append, List.nil_append]
      rw [Scan.object_open hb]
      unfold Scan.members
      rw [Scan.bind_peek hb' rfl]
      rfl
    | @some b first more _ _ hb' hfirst hmore =>
      simp only [List.append_assoc, List.cons_append]
      rw [Scan.object_open hb]
      cases h with
      | cons hmember hmembers =>
        rw [members_first hb' hfirst hmember.yields (hmore.ends_append rfl rest)]
        exact moreMembers_more hmembers hmore (hmore.length_lt_append rest) rest
      | refused hmember =>
        rw [members_first hb' hfirst hmember (hmore.ends_append rfl rest)]
        rfl

theorem reads_object (h : Folds member state members state') :
    ReadsAs (Scan.object member state) (.object members) state' := yields_object h.runs

theorem Spells.head_object (h : Spells (.object members) word) : ∃ cs, word = '\x7b' :: cs := by
  cases h with
  | object h => cases h <;> exact ⟨_, rfl⟩

/-- A reader that goes on as one of objects when it sees a brace comes to what it makes of the members. -/
theorem yields_record {x : Scan α} {f : σ → Scan α} {fields : Except Fault σ} {result : Except Fault α}
    (hx : ∀ before cs, Blank before → x (before ++ '\x7b' :: cs) =
      (Scan.object member state >>= f) ('\x7b' :: cs))
    (h : Runs member state members fields)
    (hf : ∀ s, (fields >>= fun state' => f state' s) = result.map fun a => (a, s)) :
    YieldsAs x (.object members) result := by
  intro word hword before rest hb hrest
  obtain ⟨cs, rfl⟩ := hword.head_object
  have hread := (yields_object h).front hword hrest
  rw [List.cons_append] at hread ⊢
  rw [hx before _ hb, Scan.bind_map hread]
  exact hf rest

theorem reads_record {x : Scan α} {f : σ → Scan α} {a : α}
    (hx : ∀ before cs, Blank before → x (before ++ '\x7b' :: cs) =
      (Scan.object member state >>= f) ('\x7b' :: cs))
    (h : Folds member state members state') (hf : f state' = pure a) : ReadsAs x (.object members) a := by
  refine readsAs_iff_yieldsAs.mpr (yields_record hx h.runs fun s => ?_)
  change f state' s = _
  rw [hf]
  rfl

theorem run_spells {x : Scan α} {v : Tree} {result : Except Fault α} (h : YieldsAs x v result) (hword : Spells v word)
    (hb : Blank before) (hc : Blank cs) : x.run (String.ofList (before ++ (word ++ cs))) = result := by
  have hread := h word hword before cs hb hc.ends
  have hall : cs.all Scan.isBlank = true := List.all_eq_true.mpr hc
  unfold Scan.run
  rw [String.toList_ofList, hread]
  cases result with
  | error fault => rfl
  | ok a => exact if_pos hall

theorem run_toText {x : Scan α} {v : Tree} {a : α} (h : ReadsAs x v a) : x.run v.toText = .ok a := by
  have hrun := run_spells (readsAs_iff_yieldsAs.mp h) (Tree.spells_render 0 v) blank_nil blank_nil
  rwa [List.nil_append, List.append_nil] at hrun

end Stencil.Json
