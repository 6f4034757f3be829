import Stencil.Proofs.Signature

/-! Types and their bytes correspond one to one, up to the depth to which types may be nested. The bytes of no type
    begin those of another, however deep either is nested and however many arguments it has; so where the bytes of a
    type stand, that type is read or none. -/

namespace Stencil.Signature

theorem encode_index_inj {i j : UInt16} {u v : List UInt8}
    (h : Uleb128.encode i.toNat ++ u = Uleb128.encode j.toNat ++ v) : i = j ∧ u = v := by
  obtain ⟨hij, huv⟩ := Uleb128.encode_append_inj h
  exact ⟨UInt16.toNat.inj hij, huv⟩

mutual

/-- The bytes of no type begin those of another. -/
theorem encode_append_inj : (s t : Signature) → {u v : List UInt8} → encode s ++ u = encode t ++ v → s = t ∧ u = v
  | .vector s, t, u, v, h => by
    cases t with
    | vector t => simpa using encode_append_inj s t (List.cons.inj h).2
    | uint w => cases w <;> simp [encode] at h
    | _ => simp [encode] at h
  | .reference s, t, u, v, h => by
    cases t with
    | reference t => simpa using encode_append_inj s t (List.cons.inj h).2
    | uint w => cases w <;> simp [encode] at h
    | _ => simp [encode] at h
  | .mutableReference s, t, u, v, h => by
    cases t with
    | mutableReference t => simpa using encode_append_inj s t (List.cons.inj h).2
    | uint w => cases w <;> simp [encode] at h
    | _ => simp [encode] at h
  | .instantiation i ss, t, u, v, h => by
    cases t with
    | instantiation j ts =>
      simp only [encode, List.cons_append, List.cons.injEq, true_and, List.append_assoc] at h
      obtain ⟨rfl, hcounted⟩ := encode_index_inj h
      -- As many arguments follow the one number as the other, so both lists end together.
      obtain ⟨hlen, harguments⟩ := Uleb128.encode_append_inj hcounted
      simpa using encodeAll_append_inj ss ts hlen harguments
    | uint w => cases w <;> simp [encode] at h
    | _ => simp [encode] at h
  | .datatype i, t, u, v, h => by
    cases t with
    | datatype j => simpa using encode_index_inj (List.cons.inj h).2
    | uint w => cases w <;> simp [encode] at h
    | _ => simp [encode] at h
  | .parameter i, t, u, v, h => by
    cases t with
    | parameter j => simpa using encode_index_inj (List.cons.inj h).2
    | uint w => cases w <;> simp [encode] at h
    | _ => simp [encode] at h
  | .bool, t, u, v, h | .address, t, u, v, h | .signer, t, u, v, h => by
    cases t with
    | uint w => cases w <;> simp [encode] at h
    | _ => simp_all [encode]
  | .uint w, t, u, v, h => by
    cases t with
    | uint w' => cases w <;> cases w' <;> simp_all [encode]
    | _ => cases w <;> simp [encode] at h

theorem encodeAll_append_inj : (ss ts : List Signature) → {u v : List UInt8} → ss.length = ts.length →
    encodeAll ss ++ u = encodeAll ts ++ v → ss = ts ∧ u = v
  | [], [], u, v, _, h => ⟨rfl, h⟩
  | s :: ss, t :: ts, u, v, hlen, h => by
    rw [encodeAll, encodeAll, List.append_assoc, List.append_assoc] at h
    obtain ⟨rfl, hrest⟩ := encode_append_inj s t h
    obtain ⟨rfl, rfl⟩ := encodeAll_append_inj ss ts (Nat.succ.inj hlen) hrest
    exact ⟨rfl, rfl⟩

end

/-- A type that is not too deep, and all of whose instantiations are narrow, is read where its bytes stand. -/
theorem read_of_encode {s : Signature} (hdepth : s.depth ≤ maxTypeDepth) (hnarrow : s.Narrow) (rest : List UInt8)
    (start : Nat) : read ⟨s.encode ++ rest, start⟩ = .ok s ⟨rest, start + s.encode.length⟩ :=
  (readsBack_read _ s _).mpr ⟨s.encode, ⟨⟨hdepth, hnarrow⟩, rfl⟩, rfl, rfl⟩

/-- What is read where the bytes of a type stand is that type. -/
theorem eq_of_read_encode {s t : Signature} {rest : List UInt8} {start : Nat} {r' : Reader}
    (h : read ⟨s.encode ++ rest, start⟩ = .ok t r') : t = s ∧ s.depth ≤ maxTypeDepth := by
  obtain ⟨_, ⟨⟨hdepth, -⟩, rfl⟩, hrest, -⟩ := (readsBack_read _ t r').mp h
  obtain ⟨rfl, -⟩ := encode_append_inj s t hrest
  exact ⟨rfl, hdepth⟩

/-- A type is read from its bytes whatever follows them, and what follows is left, if it is nested 256 deep at most
    and none of its instantiations has more arguments than 16 bits can count; no bytes that begin with those of a
    deeper type are read. What is read as a type are the bytes of this type and no others. -/
theorem read_spec :
    (∀ (s : Signature) (rest : List UInt8) (start : Nat), s.depth ≤ 256 → s.Narrow →
      read ⟨s.encode ++ rest, start⟩ = .ok s ⟨rest, start + s.encode.length⟩) ∧
    (∀ (s : Signature) (rest : List UInt8) (start : Nat), 256 < s.depth →
      ∃ fault r', read ⟨s.encode ++ rest, start⟩ = .error fault r') ∧
    ∀ (r r' : Reader) (s : Signature), read r = .ok s r' → r.Consumes s.encode r' ∧ s.depth ≤ 256 ∧ s.Narrow := by
  refine ⟨fun s rest start hdepth hnarrow => read_of_encode hdepth hnarrow rest start, ?_, ?_⟩
  · intro s rest start hdeep
    cases hread : read ⟨s.encode ++ rest, start⟩ with
    | error fault r' => exact ⟨fault, r', rfl⟩
    | ok t r' => exact absurd (eq_of_read_encode hread).2 (Nat.not_le.mpr hdeep)
  · intro r r' s hread
    obtain ⟨_, ⟨⟨hdepth, hnarrow⟩, rfl⟩, hconsumes⟩ := (readsBack_read r s r').mp hread
    exact ⟨hconsumes, hdepth, hnarrow⟩

/-- Vectors around a type of numbers, one inside the other. -/
def tower : (levels : Nat) → Signature
  | 0 => .uint .w256
  | levels + 1 => .vector (tower levels)

theorem depth_tower (levels : Nat) : (tower levels).depth = levels := by
  induction levels with
  | zero => rfl
  | succ levels ih => rw [tower, depth, ih]

theorem narrow_tower (levels : Nat) : (tower levels).Narrow := by
  induction levels with
  | zero => trivial
  | succ levels ih => rwa [tower, Narrow]

/-- A type whose second argument is a tower. -/
def pairing (levels : Nat) : Signature := .instantiation 300 [.parameter 7, tower levels]

theorem depth_pairing (levels : Nat) : (pairing levels).depth = levels + 1 := by
  simp [pairing, depth, depthAll, depth_tower]

theorem narrow_pairing (levels : Nat) : (pairing levels).Narrow := by
  simp [pairing, Narrow, NarrowAll, narrow_tower]

theorem read_pairing :
    ((pairing 255).depth = 256 ∧ (pairing 255).Narrow ∧
      read ⟨(pairing 255).encode ++ [0x0A], 3⟩ = .ok (pairing 255) ⟨[0x0A], 3 + (pairing 255).encode.length⟩) ∧
    ((pairing 256).depth = 257 ∧ ∃ fault r', read ⟨(pairing 256).encode ++ [0x0A], 3⟩ = .error fault r') ∧
    (pairing 255).depth ≤ 256 := by
  have hread := read_spec.1 (pairing 255) [0x0A] 3 (Nat.le_of_eq (depth_pairing 255)) (narrow_pairing 255)
  have hdeep := read_spec.2.1 (pairing 256) [0x0A] 3 (by rw [depth_pairing]; decide)
  exact ⟨⟨depth_pairing 255, narrow_pairing 255, hread⟩, ⟨depth_pairing 256, hdeep⟩,
    (read_spec.2.2 _ _ _ hread).2.1⟩

end Stencil.Signature
