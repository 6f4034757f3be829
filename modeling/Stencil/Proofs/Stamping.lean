import Stencil.Proofs.Session

/-! A stamping is done or it is not. All that can be wrong with the template and the plan is found before anything is
    written; so a stamping that is rejected leaves every file as it is, and one that is not changes no file but its
    output, be that one of the two files which it reads. -/

namespace Stencil.Command

variable {s s' : Store} {o : StampOptions} {bytes : List UInt8}

/-- Why nothing is stamped: the template or the plan is not to be had, or the one does not fit the other. -/
inductive Rejected (s : Store) (o : StampOptions) : Prop
  | unreadable {fault : FileFault} (h : s.read o.template = .error fault)
  | notModule {template : List UInt8} {error : Error} (hread : s.read o.template = .ok template)
    (h : Module.decode template = .error error)
  | notLoaded {error : LoadError} (h : (Plan.load Store.files o.plan s).1 = .error error)
  | notApplied {template : List UInt8} {m : Module} {p : Plan} {error : Error} (hread : s.read o.template = .ok template)
    (hdecode : Module.decode template = .ok m) (hload : (Plan.load Store.files o.plan s).1 = .ok p)
    (h : p.apply m = .error error)
  | notEncoded {template : List UInt8} {m m' : Module} {p : Plan} {error : Error}
    (hread : s.read o.template = .ok template) (hdecode : Module.decode template = .ok m)
    (hload : (Plan.load Store.files o.plan s).1 = .ok p) (happly : p.apply m = .ok m')
    (h : m'.encode = .error error)

/-- What is to be written has gone through all that can fail. -/
theorem stamped_eq_ok_iff : stamped s o = .ok bytes ↔ ∃ template m p m', s.read o.template = .ok template ∧
    Module.decode template = .ok m ∧ (Plan.load Store.files o.plan s).1 = .ok p ∧ p.apply m = .ok m' ∧
    m'.encode = .ok bytes := by
  simp only [stamped, Result.bind_eq_ok_iff, Read.mapError_eq_ok_iff, Prod.exists, moduleAt_eq_ok_iff]
  constructor
  · rintro ⟨template, m, ⟨hread, hdecode⟩, p, hload, m', happly, hencode⟩
    exact ⟨template, m, p, m', hread, hdecode, hload, happly, hencode⟩
  · rintro ⟨template, m, p, m', hread, hdecode, hload, happly, hencode⟩
    exact ⟨template, m, ⟨hread, hdecode⟩, p, hload, m', happly, hencode⟩

theorem Rejected.stamped_ne (h : Rejected s o) : stamped s o ≠ .ok bytes := by
  intro hstamped
  obtain ⟨template, m, p, m', hread, hdecode, hload, happly, hencode⟩ := stamped_eq_ok_iff.mp hstamped
  cases h <;> simp_all

theorem rejected_of_stamped {failure : Failure} (hstamped : stamped s o = .error failure) : Rejected s o := by
  cases hread : s.read o.template with
  | error fault => exact .unreadable hread
  | ok template =>
    cases hdecode : Module.decode template with
    | error error => exact .notModule hread hdecode
    | ok m =>
      cases hload : (Plan.load Store.files o.plan s).1 with
      | error error => exact .notLoaded hload
      | ok p =>
        cases happly : p.apply m with
        | error error => exact .notApplied hread hdecode hload happly
        | ok m' =>
          cases hencode : m'.encode with
          | error error => exact .notEncoded hread hdecode hload happly hencode
          | ok bytes =>
            have hok := stamped_eq_ok_iff.mpr ⟨template, m, p, m', hread, hdecode, hload, happly, hencode⟩
            cases hstamped.symm.trans hok

section Runs
variable {args : List String} {outcome : Outcome}

theorem run_stamp_of_refused (hargs : Request.ofArguments? args = some (.stamp o))
    {failure : Failure} (hstamped : stamped s o = .error failure) :
    ∃ printed, run Store.files args s = (.ended printed (some failure), s) := by
  have hstamps : Stamps s o (.error failure) s := by
    rw [Stamps, hstamped]
    exact ⟨rfl, rfl⟩
  exact run_of_gives hargs (gives_stamp hstamps)

theorem run_stamp_written (hargs : Request.ofArguments? args = some (.stamp o)) (hbundle : o.bundle = none)
    (hstamped : stamped s o = .ok bytes) (hwritable : s.Writable o.output) :
    ∃ printed s', run Store.files args s = (.ended printed none, s') ∧ s.Written o.output bytes s' := by
  obtain ⟨s', hwritten⟩ := hwritable.written bytes
  have hstamps : Stamps s o (.ok ()) s' := by
    rw [Stamps, hstamped]
    exact .alone hwritten hbundle
  obtain ⟨printed, hrun⟩ := run_of_gives hargs (gives_stamp hstamps)
  exact ⟨printed, s', hrun, hwritten⟩

/-- A stamping that is rejected fails and changes nothing. One that is not writes, where it can, what the plan makes of
    the template, both as they were before, and changes no other file. -/
theorem run_stamp (hargs : Request.ofArguments? args = some (.stamp o))
    (hrun : run Store.files args s = (outcome, s')) :
    (Rejected s o → outcome.exit = 1 ∧ s' = s) ∧
      (¬ Rejected s o → ∃ template p bytes, s.read o.template = .ok template ∧
        Plan.load Store.files o.plan s = (.ok p, s) ∧ Stencil.stamp template p = .ok bytes ∧
        (o.bundle = none → s.Writable o.output → outcome.exit = 0 ∧ s'.read o.output = .ok bytes ∧
          ∀ place, s'.target o.output ≠ .ok place → ∀ found : List UInt8,
            s'.get? place = some (.file found) ↔ s.get? place = some (.file found))) := by
  constructor
  · intro h
    cases hstamped : stamped s o with
    | ok bytes => exact absurd hstamped h.stamped_ne
    | error failure =>
      obtain ⟨printed, hrun'⟩ := run_stamp_of_refused hargs hstamped
      cases hrun'.symm.trans hrun
      exact ⟨rfl, rfl⟩
  · intro h
    cases hstamped : stamped s o with
    | error failure => exact absurd (rejected_of_stamped hstamped) h
    | ok bytes =>
      obtain ⟨template, m, p, m', hread, hdecode, hload, happly, hencode⟩ := stamped_eq_ok_iff.mp hstamped
      have hload : Plan.load Store.files o.plan s = (.ok p, s) := Prod.ext hload (Store.files_load_snd _ _ _)
      have hstamp : Stencil.stamp template p = .ok bytes :=
        Result.bind_eq_ok_iff.mpr ⟨m, hdecode, Result.bind_eq_ok_iff.mpr ⟨m', happly, hencode⟩⟩
      refine ⟨template, p, bytes, hread, hload, hstamp, fun hbundle hwritable => ?_⟩
      obtain ⟨printed, s', hrun', hwritten⟩ := run_stamp_written hargs hbundle hstamped hwritable
      cases hrun'.symm.trans hrun
      exact ⟨rfl, hwritten.read, fun place hplace found => hwritten.get?_other hplace⟩

end Runs

/-- A module with one constant. -/
def slip (value : UInt8) : Module where
  versionWord := 4
  directory := [.pool .constants]
  layout := [.pool .constants]
  identifiers := []
  constants := [⟨.uint .w8, [value]⟩]
  addresses := []
  handles := []
  selfHandle := none

def slipBytes (value : UInt8) : List UInt8 := [0xA1, 0x1C, 0xEB, 0x0B, 4, 0, 0, 0, 1] ++ [0x06, 0, 3] ++ [2, 1, value]

def slipPlan : Plan := ⟨[⟨0, .uint .w8 1, .uint .w8 2, rfl⟩], .empty⟩

/-- The plan as a list of its fields. -/
def slipText : String := "[[[0,\"u8\",\"1\",\"2\"]]]"

def slipStore : Store := ⟨[(["t.mv"], .file (slipBytes 1)), (["p.json"], .file (Utf8.encode slipText))]⟩

/-- A stamping that writes its output over its template. -/
def stampInPlace : List String := ["stamp", "-t", "t.mv", "-p", "p.json", "-o", "t.mv"]

/-- Done again, it finds the value that it has written, and is rejected. -/
theorem run_stamp_in_place : let o : StampOptions := ⟨"t.mv", "p.json", "t.mv", none, none⟩
    Request.ofArguments? stampInPlace = some (.stamp o) ∧ ¬ Rejected slipStore o ∧ slipStore.Writable o.output ∧
      ∃ outcome s, run Store.files stampInPlace slipStore = (outcome, s) ∧ outcome.exit = 0 ∧
        s.read "t.mv" = .ok (slipBytes 2) ∧ Rejected s o ∧
        ∃ outcome', run Store.files stampInPlace s = (outcome', s) ∧ outcome'.exit = 1 := by
  intro o
  have hargs : Request.ofArguments? stampInPlace = some (.stamp o) := by decide +kernel
  have hread : slipStore.read "t.mv" = .ok (slipBytes 1) := by decide +kernel
  have hload : (Plan.load Store.files "p.json" slipStore).1 = .ok slipPlan := by decide +kernel
  have hdecode : Module.decode (slipBytes 1) = .ok (slip 1) := by decide +kernel
  have happly : slipPlan.apply (slip 1) = .ok (slip 2) := by decide +kernel
  have hencode : (slip 2).encode = .ok (slipBytes 2) := by decide +kernel
  have hstamp : Stencil.stamp (slipBytes 1) slipPlan = .ok (slipBytes 2) := by decide +kernel
  have hwritable : slipStore.Writable o.output :=
    ⟨slipStore, ["t.mv"], Prod.ext (by decide +kernel) (by decide +kernel), by decide +kernel⟩
  have haccepted : ¬ Rejected slipStore o := fun h =>
    h.stamped_ne (stamped_eq_ok_iff.mpr ⟨_, _, _, _, hread, hdecode, hload, happly, hencode⟩)
  obtain ⟨⟨outcome, s⟩, hrun⟩ : ∃ ended, run Store.files stampInPlace slipStore = ended := ⟨_, rfl⟩
  obtain ⟨template, p, bytes, htemplate, hplan, hbytes, hdone⟩ := (run_stamp hargs hrun).2 haccepted
  obtain rfl := Except.ok.inj (hread.symm.trans htemplate)
  obtain rfl := Except.ok.inj (hload.symm.trans (congrArg Prod.fst hplan))
  obtain rfl := Except.ok.inj (hstamp.symm.trans hbytes)
  obtain ⟨hexit, hread', -⟩ := hdone rfl hwritable
  -- What has been stamped is now the template.
  have hagain : Rejected s o := by
    have hload' : (Plan.load Store.files "p.json" (run Store.files stampInPlace slipStore).2).1 = .ok slipPlan := by
      decide +kernel
    have hdecode' : Module.decode (slipBytes 2) = .ok (slip 2) := by decide +kernel
    have happly' : slipPlan.apply (slip 2) = .error (.valueMismatch 0 (.uint .w8 1) (.value (.uint .w8 2))) := by
      decide +kernel
    rw [hrun] at hload'
    exact .notApplied hread' hdecode' hload' happly'
  obtain ⟨⟨outcome', s'⟩, hrun'⟩ : ∃ ended, run Store.files stampInPlace s = ended := ⟨_, rfl⟩
  obtain ⟨hexit', rfl⟩ := (run_stamp hargs hrun').1 hagain
  exact ⟨hargs, haccepted, hwritable, outcome, s', hrun, hexit, hread', hagain, outcome', hrun', hexit'⟩

end Stencil.Command
