import Stencil.Proofs.Decoding

/-! A module ends where its bytes say. Every step of reading does the same however the input goes on after what it
    takes, and the last one asks for the end of the input; so of all inputs that begin alike one at most is a module,
    and each of the others is found to be malformed. -/

namespace Stencil

namespace Read
variable {α β : Type} {x : Read α} {V : Nat → α → List UInt8 → Prop}

/-- A step succeeds on no input that goes on after another on which it succeeds. -/
def Closes (x : Read α) : Prop :=
  ∀ start u v a r b r', x ⟨u, start⟩ = .ok a r → x ⟨u ++ v, start⟩ = .ok b r' → v = []

theorem closes_finish (what : String) (a : α) : Closes (do finish what; return a) := by
  intro start u v b r c r' h h'
  obtain ⟨-, hu⟩ := (readsAll_finish what a _ b).mp ⟨r, h⟩
  obtain ⟨-, huv⟩ := (readsAll_finish what a _ c).mp ⟨r', h'⟩
  simp_all

/-- What follows a step begins at the same place of both inputs. -/
theorem Reads.bind_closes {f : α → Read β} (hx : Reads x V) (hf : ∀ start a u, V start a u → Closes (f a)) :
    Closes (x >>= f) := by
  intro start u v b r c r' h h'
  obtain ⟨a, r₁, hfirst, hrest⟩ := bind_eq_ok h
  obtain ⟨a', r₁', hfirst', hrest'⟩ := bind_eq_ok h'
  obtain ⟨bytes, hV, -⟩ := (hx _ a r₁).mp hfirst
  cases (hx.append hfirst v).symm.trans hfirst'
  exact hf _ a bytes hV r₁.offset r₁.rest v b r c r' hrest hrest'

end Read

namespace Module

theorem closes_readListed (word : UInt32) {start : Nat} {ps : List Placement} (hnodup : (ps.map (·.kind)).Nodup) :
    Read.Closes (readListed word (Entry.locate start ps)) := by
  have hplaced := Entry.nodup_kind_arrange hnodup start
  unfold readListed
  refine (Entry.reads_checkOffsets 0 _).bind_closes fun _ total _ htiles => ?_
  refine (reads_readTables rfl hplaced htiles.1).bind_closes fun _ m _ _ => ?_
  exact (reads_readSelfHandle (versionOf word)).bind_closes fun _ handle _ _ => Read.closes_finish "module" _

theorem closes_readBody (word : UInt32) : Read.Closes (readBody word) := by
  refine (Uleb128.readsBack_read 0xFF).bind_closes fun _ count _ _ => ?_
  refine (Entry.reads_readAll [] count).bind_closes fun _ entries _ h => ?_
  obtain ⟨ps, rfl, -, hnodup, -⟩ := h
  exact closes_readListed word hnodup

theorem closes_decode : Read.Closes (readVersionWord >>= readBody) :=
  reads_readVersionWord.bind_closes fun _ word _ _ => closes_readBody word

/-- Of the inputs with which one input begins, one at most is a module. -/
theorem eq_of_begins {bytes other whole : List UInt8} {m m' : Module} (h : decode bytes = .ok m)
    (hother : decode other = .ok m') (hbytes : bytes <+: whole) (hbegins : other <+: whole) : other = bytes := by
  have hread {bytes : List UInt8} {m : Module} (h : decode bytes = .ok m) :
      ∃ r, (readVersionWord >>= readBody) { rest := bytes } = .ok m r := by
    obtain ⟨word, r, hword, -, r', hbody⟩ := decode_eq_ok_iff_steps.mp h
    exact ⟨r', Read.bind_eq_ok_iff.mpr ⟨word, r, hword, hbody⟩⟩
  obtain ⟨r, hm⟩ := hread h
  obtain ⟨r', hm'⟩ := hread hother
  rcases List.prefix_or_prefix_of_prefix hbytes hbegins with ⟨more, rfl⟩ | ⟨more, rfl⟩
  · simp [closes_decode _ _ _ _ _ _ _ hm hm']
  · simp [closes_decode _ _ _ _ _ _ _ hm' hm]

/-- Inputs with which one input begins have one version word, if they have one at all; so where one of them is a
    module, no other is refused for its version. -/
theorem malformed_of_begins {bytes other whole : List UInt8} {m : Module} {error : Error} (h : decode bytes = .ok m)
    (hother : decode other = .error error) (hbytes : bytes <+: whole) (hbegins : other <+: whole) :
    ∃ fault, error = .malformed fault := by
  rcases malformed_or_unsupported hother with hfault | ⟨word', r', hword', hunsupported⟩
  · exact hfault
  · obtain ⟨word, r, hword, hversion, -⟩ := decode_eq_ok_iff_steps.mp h
    obtain ⟨more, rfl⟩ := hbytes
    obtain ⟨more', hwhole⟩ := hbegins
    have hsame := reads_readVersionWord.append hword' more'
    rw [hwhole, reads_readVersionWord.append hword more] at hsame
    obtain ⟨rfl, -⟩ := EStateM.Result.ok.inj hsame
    exact absurd hversion hunsupported

/-- What begins the same input as a module and is not that module is malformed. -/
theorem decode_of_begins {bytes other whole : List UInt8} {m : Module} (h : decode bytes = .ok m)
    (hne : other ≠ bytes) (hbytes : bytes <+: whole) (hbegins : other <+: whole) :
    ∃ fault, decode other = .error (.malformed fault) := by
  cases hother : decode other with
  | ok m' => exact absurd (eq_of_begins h hother hbytes hbegins) hne
  | error error =>
    obtain ⟨fault, rfl⟩ := malformed_of_begins h hother hbytes hbegins
    exact ⟨fault, rfl⟩

/-- No module is cut short or goes on: less of its bytes, and more than them, are malformed. -/
theorem decode_delimited {bytes : List UInt8} {m : Module} (h : decode bytes = .ok m) :
    (∀ count < bytes.length, ∃ fault, decode (bytes.take count) = .error (.malformed fault)) ∧
      ∀ more ≠ [], ∃ fault, decode (bytes ++ more) = .error (.malformed fault) := by
  constructor
  · intro count hcount
    refine decode_of_begins h (fun heq => ?_) (List.prefix_refl bytes) (List.take_prefix count bytes)
    have hlen := congrArg List.length heq
    rw [List.length_take] at hlen
    omega
  · intro more hmore
    refine decode_of_begins h (fun heq => hmore ?_) (List.prefix_append bytes more) (List.prefix_refl _)
    simpa using heq

/-- A module whose last two bytes are the index of its own handle. -/
def trailed : Module where
  versionWord := 5
  directory := [.pool .identifiers]
  layout := [.pool .identifiers]
  identifiers := ["ab"]
  constants := []
  addresses := []
  handles := []
  selfHandle := some 128

def trailedBytes : List UInt8 :=
  [0xA1, 0x1C, 0xEB, 0x0B, 5, 0, 0, 0, 1] ++ [0x07, 0, 3] ++ [2, 0x61, 0x62] ++ [0x80, 1]

theorem decode_delimited_trailed : decode trailedBytes = .ok trailed ∧
    (∃ fault, decode (trailedBytes.take 16) = .error (.malformed fault)) ∧
    ∃ fault, decode (trailedBytes ++ [0]) = .error (.malformed fault) :=
  have h : decode trailedBytes = .ok trailed := by decide +kernel
  ⟨h, (decode_delimited h).1 16 (by decide), (decode_delimited h).2 [0] (List.cons_ne_nil 0 [])⟩

end Module

end Stencil
