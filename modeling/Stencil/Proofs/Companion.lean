import Stencil.Proofs.BundleFile
import Stencil.Proofs.RoundTrip
import Stencil.Proofs.Session

/-! The companion of a stamped module. It is read only after the module has been written, so it is bundled as it was
    when the run began unless the module was written over it; and where it cannot be read, the module has been written
    already. -/

namespace Stencil.Command

variable {s s' : Store} {o : StampOptions} {r : Except Failure Unit} {companion bundle : String}

/-- What the writing of a bundle with a companion comes to: a failure that changes no file, or the bundle of the
    module and of what the companion holds. -/
theorem bundles_cases {bytes : List UInt8} (h : Bundles s bytes (some companion) bundle r s') :
    ((∃ failure, r = .error failure) ∧ s.SameFiles s') ∨
      (r = .ok () ∧ ∃ d b, s.read companion = .ok d ∧ Bundle.load Store.files bundle s' = (.ok b, s') ∧
        b.bytes = .ok [bytes, d]) := by
  unfold Bundles companions at h
  dsimp only at h
  cases hread : s.read companion with
  | error fault =>
    rw [hread] at h
    obtain ⟨rfl, rfl⟩ := h
    exact Or.inl ⟨⟨_, rfl⟩, (Store.Extends.refl s').sameFiles⟩
  | ok d =>
    rw [hread] at h
    obtain ⟨b, hb, hr, hs'⟩ := h
    cases hsave : (b.save Store.files bundle s).1 with
    | error fault =>
      rw [hsave] at hr
      subst hr
      exact Or.inl ⟨⟨_, rfl⟩, (Bundle.extends_of_save (Prod.ext hsave hs'.symm)).sameFiles⟩
    | ok =>
      rw [hsave] at hr
      subst hr
      exact Or.inr ⟨rfl, d, b, rfl, Bundle.load_of_save (Prod.ext hsave hs'.symm), Bundle.bytes_ofModules hb⟩

/-- What a stamping with a companion comes to. -/
theorem stamps_cases (hcompanion : o.dependency = some companion) (hbundle : o.bundle = some bundle)
    (h : Stamps s o r s') :
    ((∃ failure, r = .error failure) ∧ s.SameFiles s' ∧
        ∀ bytes s₁, stamped s o = .ok bytes → ¬ s.Written o.output bytes s₁) ∨
      ∃ bytes s₁, stamped s o = .ok bytes ∧ s.Written o.output bytes s₁ ∧
        Bundles s₁ bytes (some companion) bundle r s' := by
  unfold Stamps at h
  cases hstamped : stamped s o with
  | error failure =>
    rw [hstamped] at h
    obtain ⟨rfl, rfl⟩ := h
    exact Or.inl ⟨⟨_, rfl⟩, (Store.Extends.refl s').sameFiles, fun _ _ h => by cases h⟩
  | ok bytes =>
    rw [hstamped] at h
    cases h with
    | unmade hmakes =>
      refine Or.inl ⟨⟨_, rfl⟩, (Store.extends_makeParents hmakes).sameFiles, ?_⟩
      rintro _ _ - ⟨s₁, place, hmakes', -⟩
      cases hmakes.symm.trans hmakes'
    | unwritten hmakes htarget =>
      refine Or.inl ⟨⟨_, rfl⟩, (Store.extends_makeParents hmakes).sameFiles, ?_⟩
      rintro _ _ - ⟨s₁, place, hmakes', htarget', -⟩
      cases hmakes.symm.trans hmakes'
      cases htarget.symm.trans htarget'
    | alone _ hnone =>
      rw [hbundle] at hnone
      cases hnone
    | bundled hwritten hsome hbundles =>
      cases hbundle.symm.trans hsome
      exact Or.inr ⟨bytes, _, rfl, hwritten, hcompanion ▸ hbundles⟩

/-- A run that ends well bundles the stamped module and what the companion holds once that has been written. -/
theorem bundled_of_run {args : List String} (hargs : Request.ofArguments? args = some (.stamp o))
    (hcompanion : o.dependency = some companion) (hbundle : o.bundle = some bundle) {outcome : Outcome}
    (hrun : run Store.files args s = (outcome, s')) (hexit : outcome.exit = 0) :
    ∃ bytes s₁ d b, stamped s o = .ok bytes ∧ s.Written o.output bytes s₁ ∧ s₁.read companion = .ok d ∧
      Bundle.load Store.files bundle s' = (.ok b, s') ∧ b.bytes = .ok [bytes, d] := by
  obtain ⟨r, printed, hstamps, rfl⟩ := stamps_of_run hargs hrun
  rcases stamps_cases hcompanion hbundle hstamps with ⟨⟨failure, rfl⟩, -⟩ | ⟨bytes, s₁, hstamped, hwritten, h⟩
  · exact absurd hexit Nat.one_ne_zero
  · rcases bundles_cases h with ⟨⟨failure, rfl⟩, -⟩ | ⟨-, d, b, hread, hload, hbytes⟩
    · exact absurd hexit Nat.one_ne_zero
    · exact ⟨bytes, s₁, d, b, hstamped, hwritten, hread, hload, hbytes⟩

/-- The companion is bundled as it was when the run began, behind the stamped module; if it could not be read then, the
    run fails and changes no file. -/
structure Untouched (s : Store) (o : StampOptions) (companion bundle : String) (outcome : Outcome) (s' : Store) :
    Prop where
  bundled : outcome.exit = 0 → ∃ bytes d b, stamped s o = .ok bytes ∧ s.read companion = .ok d ∧
    Bundle.load Store.files bundle s' = (.ok b, s') ∧ b.bytes = .ok [bytes, d]
  missing : (∀ d, s.read companion ≠ .ok d) → outcome.exit = 1 ∧ s.SameFiles s'

section Settled
variable {bytes : List UInt8} {s₁ : Store} {outcome : Outcome}

theorem untouched_of_failed (hexit : outcome.exit ≠ 0) (hsame : s₁.SameFiles s') :
    Untouched s o companion bundle outcome s' ↔
      (∀ d, s.read companion = .ok d → outcome.exit = 0 → s₁.target companion = s₁.target o.output → d = bytes) ∧
      ((∀ d, s.read companion ≠ .ok d) → outcome.exit = 1 ∧ s.SameFiles s₁) := by
  constructor
  · intro huntouched
    refine ⟨fun _ _ hzero => absurd hzero hexit, fun hmissing => ?_⟩
    obtain ⟨hone, hsame'⟩ := huntouched.missing hmissing
    exact ⟨hone, hsame'.trans hsame.symm⟩
  · rintro ⟨-, hleft⟩
    refine ⟨fun hzero => absurd hzero hexit, fun hmissing => ?_⟩
    obtain ⟨hone, hsame'⟩ := hleft hmissing
    exact ⟨hone, hsame'.trans hsame⟩

variable (hstamped : stamped s o = .ok bytes) (hwritten : s.Written o.output bytes s₁)
include hstamped hwritten

/-- There is one way to write a stamped module. -/
theorem forall_written_iff {P : List UInt8 → Store → Prop} :
    (∀ bytes s₁, stamped s o = .ok bytes → s.Written o.output bytes s₁ → P bytes s₁) ↔ P bytes s₁ := by
  refine ⟨fun h => h bytes s₁ hstamped hwritten, fun h bytes' s₁' hstamped' hwritten' => ?_⟩
  cases hstamped.symm.trans hstamped'
  cases hwritten.unique hwritten'
  exact h

/-- What has been bundled is what the companion held, unless the module was written over it. -/
theorem untouched_of_bundled (hexit : outcome.exit = 0) {d : List UInt8} {b : Bundle}
    (hread : s₁.read companion = .ok d) (hload : Bundle.load Store.files bundle s' = (.ok b, s'))
    (hbytes : b.bytes = .ok [bytes, d]) :
    Untouched s o companion bundle outcome s' ↔
      (∀ d, s.read companion = .ok d → outcome.exit = 0 → s₁.target companion = s₁.target o.output → d = bytes) ∧
      ((∀ d, s.read companion ≠ .ok d) → outcome.exit = 1 ∧ s.SameFiles s₁) := by
  have hnever : outcome.exit ≠ 1 := by
    rw [hexit]
    exact Nat.zero_ne_one
  constructor
  · intro huntouched
    refine ⟨fun d₀ hd₀ _ htarget => ?_, fun hmissing => absurd (huntouched.missing hmissing).1 hnever⟩
    obtain ⟨_, _, _, hstamped', hd, hload', hbytes'⟩ := huntouched.bundled hexit
    cases hstamped.symm.trans hstamped'
    cases hd₀.symm.trans hd
    cases hload.symm.trans hload'
    cases hbytes.symm.trans hbytes'
    rcases hwritten.read_other hd₀ with ⟨hover, -⟩ | ⟨-, hne⟩
    · exact Except.ok.inj (hread.symm.trans hover)
    · exact absurd htarget hne
  · rintro ⟨hreadable, hleft⟩
    have hthere : ¬ ∀ d, s.read companion ≠ .ok d := fun hmissing => hnever (hleft hmissing).1
    refine ⟨fun _ => ?_, fun hmissing => absurd hmissing hthere⟩
    obtain ⟨d₀, hd₀⟩ : ∃ d, s.read companion = .ok d := by
      by_contra h
      exact hthere fun d hd => h ⟨d, hd⟩
    refine ⟨bytes, d, b, hstamped, ?_, hload, hbytes⟩
    rcases hwritten.read_other hd₀ with ⟨hover, htarget⟩ | ⟨hother, -⟩
    · rw [hd₀, hreadable d₀ hd₀ hexit htarget, Except.ok.inj (hread.symm.trans hover)]
    · rw [hd₀, Except.ok.inj (hread.symm.trans hother)]

end Settled

/-- The companion is bundled untouched exactly if the module is not written over it, unless with the bytes that it held,
    and a companion that cannot be read leaves no changed file behind it. -/
theorem untouched_iff {args : List String} (hargs : Request.ofArguments? args = some (.stamp o))
    (hcompanion : o.dependency = some companion) (hbundle : o.bundle = some bundle) {outcome : Outcome}
    (hrun : run Store.files args s = (outcome, s')) :
    Untouched s o companion bundle outcome s' ↔
      ∀ bytes s₁, stamped s o = .ok bytes → s.Written o.output bytes s₁ →
        (∀ d, s.read companion = .ok d → outcome.exit = 0 → s₁.target companion = s₁.target o.output → d = bytes) ∧
        ((∀ d, s.read companion ≠ .ok d) → outcome.exit = 1 ∧ s.SameFiles s₁) := by
  obtain ⟨r, printed, hstamps, rfl⟩ := stamps_of_run hargs hrun
  rcases stamps_cases hcompanion hbundle hstamps with ⟨⟨failure, rfl⟩, hsame, hnot⟩ | ⟨bytes, s₁, hstamped, hwritten, h⟩
  · refine ⟨fun _ bytes s₁ hstamped hwritten => absurd hwritten (hnot bytes s₁ hstamped), fun _ => ⟨?_, ?_⟩⟩
    · exact fun h => absurd h Nat.one_ne_zero
    · exact fun _ => ⟨rfl, hsame⟩
  · rw [forall_written_iff hstamped hwritten]
    rcases bundles_cases h with ⟨⟨failure, rfl⟩, hsame⟩ | ⟨rfl, d, b, hread, hload, hbytes⟩
    · exact untouched_of_failed Nat.one_ne_zero hsame
    · exact untouched_of_bundled hstamped hwritten rfl hread hload hbytes

/-- A template, an empty plan and a companion. -/
def genesisStore : Store :=
  ⟨[(["template.mv"], .file Module.sampleBytes), (["plan.json"], .file [0x7B, 0x7D]),
    (["genesis.mv"], .file [1, 2, 3])]⟩

def genesisOptions (output companion : String) : StampOptions :=
  ⟨"template.mv", "plan.json", output, some companion, some "bundle.json"⟩

def genesisArguments (output companion : String) : List String :=
  ["stamp", "-t", "template.mv", "-p", "plan.json", "-o", output, "--dependency", companion, "--bundle", "bundle.json"]

def genesisRun (output companion : String) : Outcome × Store :=
  run Store.files (genesisArguments output companion) genesisStore

/-- The run leaves the companion of its options untouched. -/
def GenesisUntouched (output companion : String) : Prop :=
  Untouched genesisStore (genesisOptions output companion) companion "bundle.json" (genesisRun output companion).1
    (genesisRun output companion).2

theorem stamped_genesis (output companion : String) :
    stamped genesisStore (genesisOptions output companion) = .ok Module.sampleBytes := by
  have hread : genesisStore.read "template.mv" = .ok Module.sampleBytes := by decide +kernel
  have hdecode : Module.decode Module.sampleBytes = .ok Module.sample := by decide +kernel
  have hload : Plan.load Store.files "plan.json" genesisStore = (.ok .empty, genesisStore) :=
    Prod.ext (by decide +kernel) (Store.files_load_snd _ _ _)
  have hstamped : Plan.empty.apply Module.sample >>= Module.encode = .ok Module.sampleBytes := by decide +kernel
  rw [stamped_of_plan (moduleAt_eq_ok_iff.mpr ⟨hread, hdecode⟩) hload, hstamped]
  rfl

theorem untouched_genesis :
    Request.ofArguments? (genesisArguments "out/coin.mv" "genesis.mv") =
      some (.stamp (genesisOptions "out/coin.mv" "genesis.mv")) ∧
    (genesisRun "out/coin.mv" "genesis.mv").1.exit = 0 ∧ GenesisUntouched "out/coin.mv" "genesis.mv" := by
  have hargs : Request.ofArguments? (genesisArguments "out/coin.mv" "genesis.mv") =
      some (.stamp (genesisOptions "out/coin.mv" "genesis.mv")) := by decide +kernel
  have hexit : (genesisRun "out/coin.mv" "genesis.mv").1.exit = 0 := by decide +kernel
  have hread : genesisStore.read "genesis.mv" = .ok [1, 2, 3] := by decide +kernel
  refine ⟨hargs, hexit, (untouched_iff hargs rfl rfl rfl).mpr fun bytes s₁ _ hwritten => ?_⟩
  refine ⟨fun d _ _ htarget => ?_, fun hmissing => absurd hread (hmissing _)⟩
  -- The output and the companion are different files.
  obtain ⟨s₂, place, hmakes, hplace, rfl⟩ := hwritten
  have hs₂ : (Store.files.makeParents "out/coin.mv" genesisStore).2 = s₂ := congrArg Prod.snd hmakes
  have hgenesis : s₂.target "genesis.mv" = .ok ["genesis.mv"] := by
    rw [← hs₂]
    decide +kernel
  have hcoin : s₂.target "out/coin.mv" = .ok ["out", "coin.mv"] := by
    rw [← hs₂]
    decide +kernel
  have hfile := Store.get?_target hplace
  rw [(Store.target_put_file hfile bytes).mpr hgenesis,
    show (genesisOptions "out/coin.mv" "genesis.mv").output = "out/coin.mv" from rfl,
    (Store.target_put_file hfile bytes).mpr hcoin] at htarget
  exact absurd htarget (by decide)

/-- The module is bundled twice where it is written over its companion, and it is left behind where its companion is
    missing. -/
theorem not_untouched_output :
    (genesisRun "genesis.mv" "genesis.mv").1.exit = 0 ∧ ¬ GenesisUntouched "genesis.mv" "genesis.mv" ∧
    (genesisRun "coin.mv" "missing.mv").1.exit = 1 ∧ ¬ GenesisUntouched "coin.mv" "missing.mv" := by
  have hover : (genesisRun "genesis.mv" "genesis.mv").1.exit = 0 := by decide +kernel
  have hleft : (genesisRun "coin.mv" "missing.mv").1.exit = 1 := by decide +kernel
  refine ⟨hover, fun huntouched => ?_, hleft, fun huntouched => ?_⟩
  · have hargs : Request.ofArguments? (genesisArguments "genesis.mv" "genesis.mv") =
        some (.stamp (genesisOptions "genesis.mv" "genesis.mv")) := by decide +kernel
    have hgenesis : genesisStore.read "genesis.mv" = .ok [1, 2, 3] := by decide +kernel
    obtain ⟨bytes, s₁, d, b, hstamped, hwritten, hread, hload, hbytes⟩ := bundled_of_run hargs rfl rfl rfl hover
    obtain ⟨bytes', d', b', -, hread', hload', hbytes'⟩ := huntouched.bundled hover
    cases hload.symm.trans hload'
    cases hbytes.symm.trans hbytes'
    cases hgenesis.symm.trans hread'
    cases hread.symm.trans hwritten.read
    exact absurd (Except.ok.inj ((stamped_genesis _ _).symm.trans hstamped)) (by decide)
  · have hcoin : (genesisRun "coin.mv" "missing.mv").2.get? ["coin.mv"] = some (.file Module.sampleBytes) := by
      decide +kernel
    have hmissing : ∀ d, genesisStore.read "missing.mv" ≠ .ok d := by
      have hfault : genesisStore.read "missing.mv" = .error .notFound := by decide +kernel
      rw [hfault]
      rintro _ ⟨⟩
    have hbefore := ((huntouched.missing hmissing).2 ["coin.mv"] Module.sampleBytes).mp hcoin
    exact absurd hbefore (by decide +kernel)

end Stencil.Command
