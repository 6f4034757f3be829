import Stencil.Bundle
import Stencil.Proofs.Address
import Stencil.Proofs.Scan
import Stencil.Proofs.Store

/-! Bundles and their files. A bundle that has been saved is loaded as it was, and its modules are the bytes that it
    was made of. -/

namespace Stencil

open Json

namespace Hex

/-- A digit is one byte of a text, and stands for its number. -/
theorem encode_digit {n : Nat} (h : n < 16) :
    ∃ b, String.utf8EncodeChar (digit n) = [b] ∧ value? (Char.ofNat b.toNat) = some n := by
  have hall : ∀ n, n < 16 → String.utf8EncodeChar (digit n) = [UInt8.ofNat (digit n).toNat] ∧
      value? (Char.ofNat (UInt8.ofNat (digit n).toNat).toNat) = some n := by decide
  exact ⟨_, hall n h⟩

theorem utf8_digits_cons (b : UInt8) (bytes : List UInt8) : ∃ high low,
    (digits (b :: bytes)).flatMap String.utf8EncodeChar = high :: low :: (digits bytes).flatMap String.utf8EncodeChar ∧
      value? (Char.ofNat high.toNat) = some (b.toNat / 16) ∧ value? (Char.ofNat low.toNat) = some (b.toNat % 16) := by
  have hb := b.toNat_lt
  obtain ⟨high, hhigh, hvhigh⟩ := encode_digit (n := b.toNat / 16) (by omega)
  obtain ⟨low, hlow, hvlow⟩ := encode_digit (n := b.toNat % 16) (by omega)
  refine ⟨high, low, ?_, hvhigh, hvlow⟩
  change (digit (b.toNat / 16) :: digit (b.toNat % 16) :: digits bytes).flatMap _ = _
  rw [List.flatMap_cons, List.flatMap_cons, hhigh, hlow]
  rfl

theorem length_utf8_digits (bytes : List UInt8) :
    ((digits bytes).flatMap String.utf8EncodeChar).length = 2 * bytes.length := by
  induction bytes with
  | nil => rfl
  | cons b bytes ih =>
    obtain ⟨high, low, hcons, -, -⟩ := utf8_digits_cons b bytes
    rw [hcons, List.length_cons, List.length_cons, ih, List.length_cons]
    omega

theorem decodeFrom_digits (index : Nat) (bytes : List UInt8) :
    decodeFrom index ((digits bytes).flatMap String.utf8EncodeChar) = .ok bytes := by
  induction bytes generalizing index with
  | nil => rfl
  | cons b bytes ih =>
    obtain ⟨high, low, hcons, hhigh, hlow⟩ := utf8_digits_cons b bytes
    rw [hcons, decodeFrom, hhigh, hlow, ih]
    change Except.ok (UInt8.ofNat (b.toNat / 16 * 16 + b.toNat % 16) :: bytes) = _
    rw [ofNat_halves]

/-- Bytes come back from their hexadecimal text. -/
theorem decode_encode (bytes : List UInt8) : decode (Utf8.encode (encode bytes)) = .ok bytes := by
  have heven : ¬ (2 * bytes.length) % 2 = 1 := by omega
  rw [Utf8.encode, encode, String.toList_ofList, decode, length_utf8_digits, if_neg heven, decodeFrom_digits]

end Hex

namespace Bundle

section OfModules
variable {stamped : List UInt8} {companions : List (List UInt8)} {dependencies : List String} {b : Bundle}

theorem ofModules_eq_ok_iff : ofModules stamped companions dependencies = .ok b ↔
    b.modules = (stamped :: companions).map Hex.encode ∧ dependencies.mapM Address.normalize = .ok b.dependencies := by
  unfold ofModules
  rw [Result.bind_eq_ok_iff]
  constructor
  · rintro ⟨ids, hids, h⟩
    obtain rfl := Result.pure_eq_ok_iff.mp h
    exact ⟨rfl, hids⟩
  · rintro ⟨hmodules, hids⟩
    refine ⟨b.dependencies, hids, ?_⟩
    rw [← hmodules]
    rfl

/-- There is a bundle exactly if all its dependencies are address literals. -/
theorem exists_ofModules_iff : (∃ b, ofModules stamped companions dependencies = .ok b) ↔
    ∀ d ∈ dependencies, ∃ a, Address.parse d = .ok a := by
  simp only [← Address.exists_normalize_iff, ← Result.exists_mapM_eq_ok_iff, ofModules_eq_ok_iff]
  constructor
  · rintro ⟨b, -, hids⟩
    exact ⟨b.dependencies, hids⟩
  · rintro ⟨ids, hids⟩
    exact ⟨⟨_, ids⟩, rfl, hids⟩

/-- The first dependency that is no address literal decides why there is no bundle. -/
theorem ofModules_eq_error_iff {e : LiteralError} : ofModules stamped companions dependencies = .error e ↔
    ∃ before d after, dependencies = before ++ d :: after ∧ (∀ d' ∈ before, ∃ a, Address.parse d' = .ok a) ∧
      Address.parse d = .error e := by
  have hids : ofModules stamped companions dependencies = .error e ↔
      dependencies.mapM Address.normalize = .error e := by
    unfold ofModules
    cases dependencies.mapM Address.normalize <;> simp [bind, Except.bind, pure, Except.pure]
  simp only [hids, Result.mapM_eq_error_iff, Address.normalize_eq_error_iff, Address.exists_normalize_iff]

/-- The modules of a bundle are the bytes that it was made of. -/
theorem bytes_ofModules (h : ofModules stamped companions dependencies = .ok b) :
    b.bytes = .ok (stamped :: companions) := by
  have hforall (modules : List (List UInt8)) (index : Nat) :
      List.Forall₂ (fun (x : String × Nat) bytes => moduleBytes x.1 x.2 = .ok bytes)
        ((modules.map Hex.encode).zipIdx index) modules := by
    induction modules generalizing index with
    | nil => exact .nil
    | cons bytes modules ih =>
      rw [List.map_cons, List.zipIdx_cons]
      refine .cons ?_ (ih _)
      rw [moduleBytes, Hex.decode_encode]
      rfl
  rw [bytes, (ofModules_eq_ok_iff.mp h).1]
  exact Result.mapM_eq_ok_iff.mpr (hforall _ 0)

end OfModules

/-! ### Files -/

theorem reads_scan (b : Bundle) : ReadsAs scan b.record b := by
  have htexts (texts : List String) : ReadsAs (Scan.list Scan.text) (.list (texts.map .text)) texts :=
    reads_list (List.forall₂_map_left_iff.mpr (List.forall₂_same.mpr fun s _ => reads_text s))
  have hfolds : Folds Fields.member ⟨none, none⟩
      [("modules", .list (b.modules.map .text)), ("dependencies", .list (b.dependencies.map .text))]
      ⟨some b.modules, some b.dependencies⟩ :=
    .cons (readsMember (f := fun texts => ⟨some texts, none⟩) rfl (htexts b.modules))
      (.cons (readsMember (f := fun texts => ⟨some b.modules, some texts⟩) rfl (htexts b.dependencies)) .nil)
  refine reads_record (f := fun fields => do
    return ⟨← Scan.need "modules" fields.modules, ← Scan.need "dependencies" fields.dependencies⟩)
    (fun before cs hb => ?_) hfolds rfl
  unfold scan
  rw [Scan.bind_peek hb rfl]
  rfl

/-- The text of a bundle is read as the bundle. -/
theorem ofText_toText (b : Bundle) : ofText b.toText = .ok b := run_toText (reads_scan b)

variable {b : Bundle} {path : String} {s s' : Store}

theorem save_of_makeParents {made : Except FileFault Unit} (h : Store.files.makeParents path s = (made, s'))
    (b : Bundle) : b.save Store.files path s =
      match made with
      | .error fault => (.error fault, s')
      | .ok () => Store.files.write path (Utf8.encode b.toText) s' := by
  simp only [save, Bind.bind, StateT.bind, h]
  cases made <;> rfl

theorem save_eq_ok_iff : b.save Store.files path s = (.ok (), s') ↔ s.Written path (Utf8.encode b.toText) s' := by
  cases hmakes : Store.files.makeParents path s with
  | mk made s₁ =>
    rw [save_of_makeParents hmakes]
    constructor
    · intro h
      cases made with
      | error fault => cases h
      | ok =>
        obtain ⟨place, htarget, rfl⟩ := Store.files_write_eq_ok_iff.mp h
        exact ⟨s₁, place, hmakes, htarget, rfl⟩
    · rintro ⟨_, place, hmakes', htarget, rfl⟩
      cases hmakes.symm.trans hmakes'
      exact Store.files_write_eq_ok_iff.mpr ⟨place, htarget, rfl⟩

/-- A bundle is loaded from the file that it was saved to. -/
theorem load_of_save (h : b.save Store.files path s = (.ok (), s')) : load Store.files path s' = (.ok b, s') := by
  rw [load, Store.files_load ofText (save_eq_ok_iff.mp h).read, ofText_toText]
  rfl

/-- A bundle that cannot be saved leaves the files as they are. -/
theorem extends_of_save {fault : FileFault} (h : b.save Store.files path s = (.error fault, s')) : s.Extends s' := by
  cases hmakes : Store.files.makeParents path s with
  | mk made s₁ =>
    rw [save_of_makeParents hmakes] at h
    have hextends := Store.extends_makeParents hmakes
    cases made with
    | error fault =>
      cases h
      exact hextends
    | ok =>
      dsimp only at h
      cases htarget : s₁.target path with
      | error fault =>
        rw [Store.files_write_of_error htarget] at h
        cases h
        exact hextends
      | ok place =>
        rw [Store.files_write_of_ok htarget] at h
        cases h

/-- Modules are bundled exactly if every dependency is an address literal, and the first that is none decides why
    they are not. A bundle can be saved wherever a file can be written, and what is loaded from there is the same
    bundle: its modules are the bytes that it was made of, in their order, and its dependencies are spelled in full. -/
theorem load_save_ofModules (stamped : List UInt8) (companions : List (List UInt8)) (dependencies : List String) :
    ((∃ b, ofModules stamped companions dependencies = .ok b) ↔
      ∀ d ∈ dependencies, ∃ a, Address.parse d = .ok a) ∧
    (∀ e, ofModules stamped companions dependencies = .error e ↔
      ∃ before d after, dependencies = before ++ d :: after ∧ (∀ d' ∈ before, ∃ a, Address.parse d' = .ok a) ∧
        Address.parse d = .error e) ∧
    ∀ b, ofModules stamped companions dependencies = .ok b → ∀ (s : Store) (path : String),
      ((∃ s', b.save Store.files path s = (.ok (), s')) ↔ s.Writable path) ∧
      ∀ s', b.save Store.files path s = (.ok (), s') →
        load Store.files path s' = (.ok b, s') ∧ b.bytes = .ok (stamped :: companions) ∧
          List.Forall₂ (fun d text => Address.normalize d = .ok text) dependencies b.dependencies := by
  refine ⟨exists_ofModules_iff, fun _ => ofModules_eq_error_iff, fun b hb s path => ⟨?_, fun s' hsave => ?_⟩⟩
  · simp only [save_eq_ok_iff]
    constructor
    · rintro ⟨_, s₁, place, hmakes, htarget, rfl⟩
      exact ⟨s₁, place, hmakes, htarget⟩
    · exact fun hwritable => hwritable.written _
  · have hids := (ofModules_eq_ok_iff.mp hb).2
    exact ⟨load_of_save hsave, bytes_ofModules hb, Result.mapM_eq_ok_iff.mp hids⟩

/-- A module without bytes is bundled with two others that are the same, and saved where there is no directory yet. -/
theorem load_save_twins :
    (∀ d ∈ ["2", "0X0aB"], ∃ a, Address.parse d = .ok a) ∧ Store.empty.Writable "out/bundle.json" ∧
      ∃ b s', ofModules [] [[0, 255], [0, 255]] ["2", "0X0aB"] = .ok b ∧
        b.save Store.files "out/bundle.json" Store.empty = (.ok (), s') ∧
        load Store.files "out/bundle.json" s' = (.ok b, s') ∧ b.bytes = .ok [[], [0, 255], [0, 255]] ∧
        ofModules [] [] ["2", "0xg", ""] = .error (.invalid (.value .address) "0xg") := by
  have hparse : ∀ d ∈ ["2", "0X0aB"], ∃ a, Address.parse d = .ok a := by
    have hall : ∀ d ∈ ["2", "0X0aB"], (Address.parse d).isOk = true := by decide +kernel
    exact fun d hd => Result.exists_of_isOk (hall d hd)
  have hwritable : Store.empty.Writable "out/bundle.json" :=
    ⟨_, ["out", "bundle.json"], Prod.ext (by decide +kernel) rfl, by decide +kernel⟩
  obtain ⟨hexists, -, hfiles⟩ := load_save_ofModules [] [[0, 255], [0, 255]] ["2", "0X0aB"]
  obtain ⟨b, hb⟩ := hexists.mpr hparse
  obtain ⟨hsaves, hloads⟩ := hfiles b hb Store.empty "out/bundle.json"
  obtain ⟨s', hsave⟩ := hsaves.mpr hwritable
  obtain ⟨hload, hbytes, -⟩ := hloads s' hsave
  have hrefused := (load_save_ofModules [] [] ["2", "0xg", ""]).2.1 (.invalid (.value .address) "0xg")
  refine ⟨hparse, hwritable, b, s', hb, hsave, hload, hbytes, hrefused.mpr ⟨["2"], "0xg", [""], rfl, ?_, ?_⟩⟩
  · exact fun d hd => hparse d (List.mem_of_mem_take (i := 1) hd)
  · decide +kernel

end Bundle

end Stencil
