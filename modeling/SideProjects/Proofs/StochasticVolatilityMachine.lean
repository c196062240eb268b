import Mathlib.Algebra.BigOperators.Group.List.Basic
import Mathlib.Algebra.Ring.Nat
import SideProjects.Proofs.StochasticVolatilityLoops
import SideProjects.StochasticVolatilityMachine

/-!
# Seeds and counters of the particle filter

With fewer than `2 ^ 31 - 1` observations the loops do what they do with natural numbers, as long as
these divide no weights by zero (`filterAfter_result`, `likelihoodAfter_result`). So the filter returns
paths of the model just as long as its counters do not overflow (`particleFilter_paths_iff`). What is
left of the integers then is the seed, which no iteration changes (`ownSeeds_iff`), and the number of
terms that `logLikelihood` divides by (`exact_iff`).
-/

universe u

namespace SideProjects

namespace StochasticVolatility

namespace Machine

section Doubles

variable {K : Type u} {y : List K} {n seed : UInt32} {loopSeed : Int32}

theorem toNat_observations (hy : y.length < 2 ^ 32) : (observations y).toNat = y.length := by
  rw [observations, UInt32.toNat_ofNat']
  exact Nat.mod_eq_of_lt hy

theorem toNat_ne_zero (hn : n ≠ 0) : n.toNat ≠ 0 := fun h => hn (UInt32.toNat_inj.mp h)

variable [Zero K] [Add K] [Mul K] [LE K] [LT K] [DecidableLE K] [DecidableLT K] [FloatOrder K]
  {env : Env K} {model : StochasticVolatilityModel K}

theorem start_eq (hy : y.length < 2 ^ 31) :
    start env model y n seed = StochasticVolatility.start env model y n.toNat seed := by
  have hlength : (observations y + 1).toNat = y.length + 1 := by
    rw [UInt32.toNat_add, toNat_observations (by omega)]
    exact Nat.mod_eq_of_lt (by simp; omega)
  rw [start, StochasticVolatility.start, hlength]

/-- The table that a run starts from. -/
theorem startLoop_eq_ok {σ : Type u} {f : Particles K → Logged Seeding Fault σ} {s : σ}
    (h : (Logged.ofExcept (start env model y n seed) >>= f).result = .ok s) :
    ∃ particles, start env model y n seed = .ok particles ∧ (f particles).result = .ok s ∧
      n.toNat < 2 ^ 31 ∧ particles.particleLength = (observations y + 1).toNat := by
  rw [Logged.result_bind] at h
  obtain ⟨particles, hs, h⟩ := Except.bind_eq_ok.mp h
  obtain ⟨-, -, hsmall, -, hlength, -⟩ := initial_eq_ok hs
  exact ⟨particles, hs, h, hsmall, hlength⟩

variable [Sub K] [Div K] [NatCast K]

/-! ## Without the log -/

section For

variable {σ : Type*} {body : ℕ → σ → Logged Seeding Fault σ} {s : σ}

theorem forAfter_result {t : ℕ} (ht : t + 2 < 2 ^ 31) :
    (forAfter body s (t + 1)).result =
      (forAfter body s t).result >>= fun s => (body (t + 1) s).result := by
  rw [forAfter]
  simp only [if_pos ht, Logged.result_bind, Logged.result_ofExcept]
  rcases (forAfter body s t).result with e | s'
  · rfl
  · simp only [Except.ok_bind]
    rcases (body (t + 1) s').result with e | s'' <;> rfl

theorem forAfter_eq_ok {t : ℕ} {s' : σ} (h : (forAfter body s (t + 1)).result = .ok s') :
    t + 2 < 2 ^ 31 ∧ ∃ s₁, (forAfter body s t).result = .ok s₁ ∧
      (body (t + 1) s₁).result = .ok s' := by
  rw [forAfter] at h
  simp only [Logged.result_bind] at h
  obtain ⟨s₁, h₁, h⟩ := Except.bind_eq_ok.mp h
  obtain ⟨s₂, h₂, h⟩ := Except.bind_eq_ok.mp h
  split_ifs at h with ht
  · cases h
    exact ⟨ht, s₁, h₁, h₂⟩
  · cases h

/-- The loop does not come to its end where the counter overflows. -/
theorem forAfter_ne_ok {t : ℕ} (ht : 2 ^ 31 ≤ t + 1) (s' : σ) :
    (forAfter body s t).result ≠ .ok s' := by
  obtain ⟨t, rfl⟩ := Nat.exists_eq_add_of_le' (by omega : 1 ≤ t)
  intro h
  exact absurd (forAfter_eq_ok h).1 (by omega)

/-- What every iteration keeps, the loop keeps. -/
theorem forAfter_invariant {Inv : σ → Prop}
    (hbody : ∀ t s s', (body t s).result = .ok s' → Inv s → Inv s') (hs : Inv s) : ∀ {t : ℕ} {s' : σ},
    (forAfter body s t).result = .ok s' → Inv s'
  | 0, _, h => by
    cases h
    exact hs
  | t + 1, s', h => by
    obtain ⟨-, s₁, h₁, h₂⟩ := forAfter_eq_ok h
    exact hbody _ _ _ h₂ (forAfter_invariant hbody hs h₁)

end For

theorem propose_result (t : ℕ) (particles : Particles K) :
    (propose env model n loopSeed t particles).result =
      StochasticVolatility.propose env model n.toNat loopSeed.toUInt32 t particles := by
  simp only [propose, sample, StochasticVolatility.propose, Logged.result_bind, Logged.result_ofExcept,
    Logged.result_note]

/-- The sum of the likelihoods is only divided by where it is positive. -/
theorem filterStep_result (t : ℕ) (particles : Particles K) :
    (filterStep env model y n loopSeed t particles).result =
      StochasticVolatility.filterStep env model y n.toNat loopSeed.toUInt32 t particles := by
  simp only [filterStep, resampleParticles, StochasticVolatility.filterStep, Logged.result_bind,
    Logged.result_ofExcept, propose_result]
  congr! 4 with ⟨latestParticles, dist⟩ x particles'
  split_ifs with hsum
  · rw [normalise, if_neg fun hzero => FloatOrder.not_le_of_lt hsum hzero.1]
    rfl
  · rfl

theorem likelihoodStep_result {t : ℕ} {s s' : Particles K × K}
    (h : StochasticVolatility.likelihoodStep env model y n.toNat loopSeed.toUInt32 t s.1 s.2 = .ok s') :
    (likelihoodStep env model y n loopSeed t s).result = .ok s' := by
  obtain ⟨⟨latestParticles, dist⟩, hp, h⟩ := Except.bind_eq_ok.mp h
  obtain ⟨x, hx, h⟩ := Except.bind_eq_ok.mp h
  obtain ⟨particles₁, ha, h⟩ := Except.bind_eq_ok.mp h
  obtain ⟨weights, hw, h⟩ := Except.bind_eq_ok.mp h
  unfold normalise at hw
  split_ifs at hw
  cases hw
  simp only [likelihoodStep, resampleParticles, Logged.result_bind, Logged.result_ofExcept,
    Logged.result_note, propose_result, hp, hx, ha, Except.ok_bind]
  exact h

theorem filterAfter_succ {t : ℕ} (ht : t + 2 < 2 ^ 31) :
    (filterAfter env model y n seed (t + 1)).result =
      (filterAfter env model y n seed t).result >>= fun particles =>
        (filterStep env model y n seed.toInt32 (t + 1) particles).result := by
  simp only [filterAfter, Logged.result_bind, Logged.result_ofExcept, forAfter_result ht, bind_assoc]

theorem likelihoodAfter_succ {t : ℕ} (ht : t + 2 < 2 ^ 31) :
    (likelihoodAfter env model y n seed (t + 1)).result =
      (likelihoodAfter env model y n seed t).result >>= fun s =>
        (likelihoodStep env model y n seed.toInt32 (t + 1) s).result := by
  simp only [likelihoodAfter, Logged.result_bind, Logged.result_ofExcept, forAfter_result ht,
    bind_assoc]

theorem filterAfter_result (hy : y.length < 2 ^ 31) : ∀ {t : ℕ}, t + 1 < 2 ^ 31 →
    (filterAfter env model y n seed t).result =
      StochasticVolatility.filterAfter env model y n.toNat seed t
  | 0, _ => by
    simp only [filterAfter, forAfter, StochasticVolatility.filterAfter, Logged.result_bind,
      Logged.result_ofExcept, start_eq hy]
    rcases StochasticVolatility.start env model y n.toNat seed with e | particles <;> rfl
  | t + 1, ht => by
    rw [StochasticVolatility.filterAfter, ← filterAfter_result hy (Nat.lt_of_succ_lt ht),
      filterAfter_succ ht]
    simp only [filterStep_result, UInt32.toUInt32_toInt32]

/-- What `logLikelihood` comes to with natural numbers, it comes to. -/
theorem likelihoodAfter_result (hy : y.length < 2 ^ 31) : ∀ {t : ℕ} {s : Particles K × K},
    t + 1 < 2 ^ 31 → StochasticVolatility.likelihoodAfter env model y n.toNat seed t = .ok s →
    (likelihoodAfter env model y n seed t).result = .ok s
  | 0, s, _, h => by
    obtain ⟨particles, hs, h⟩ := Except.bind_eq_ok.mp h
    simp only [likelihoodAfter, forAfter, Logged.result_bind, Logged.result_ofExcept, start_eq hy, hs,
      Except.ok_bind]
    exact h
  | t + 1, s, ht, h => by
    obtain ⟨s₁, h₁, h⟩ := Except.bind_eq_ok.mp h
    rw [likelihoodAfter_succ ht, likelihoodAfter_result hy (Nat.lt_of_succ_lt ht) h₁, Except.ok_bind]
    exact likelihoodStep_result (by rwa [UInt32.toUInt32_toInt32])

/-! ## An iteration -/

/-- What an iteration of `logLikelihood` does with a proposal, whatever the likelihoods. -/
theorem likelihoodStep_ok {t : ℕ} {particles : Particles K} (h : Shaped y n.toNat t particles)
    (ht : t < y.length) {latestParticles : List K} {dist : IndependentVectorNormal K}
    (hp : StochasticVolatility.propose env model n.toNat loopSeed.toUInt32 (t + 1) particles =
      .ok (latestParticles, dist)) (sum : K) :
    ∃ particles', (likelihoodStep env model y n loopSeed (t + 1) (particles, sum)).result =
        .ok (particles', sum + (env.logLikelihoods (t + 1) dist y[t]).sum) ∧
      Shaped y n.toNat (t + 1) particles' := by
  obtain ⟨rfl, hmeans, -⟩ := propose_eq_ok h ht.le hp
  obtain ⟨particles₁, ha, h₁, -⟩ :=
    appendParticles_ok h ht (length_moved env model loopSeed.toUInt32 h)
  set logs := env.logLikelihoods (t + 1) dist y[t] with hlogs
  have hweights : ((logs.map env.exp).map (· / (logs.map env.exp).sum)).length = n.toNat := by
    rw [List.length_map, List.length_map, hlogs, env.logLikelihoods_length, hmeans]
  obtain ⟨particles₂, hr, h₂, -⟩ :=
    resampleParticles_ok env loopSeed.toUInt32 h₁ (t + 1) hweights
  refine ⟨particles₂, ?_, h₂⟩
  simp only [likelihoodStep, resampleParticles, Logged.result_bind, Logged.result_ofExcept,
    Logged.result_note, propose_result, hp, observation_ok ht, ha, uncaught, Except.ok_bind, ← hlogs, hr]

theorem filterStep_length {t : ℕ} {particles particles' : Particles K}
    (h : (filterStep env model y n loopSeed t particles).result = .ok particles') :
    particles'.particleLength = particles.particleLength := by
  rw [filterStep_result] at h
  obtain ⟨r, -, h⟩ := Except.bind_eq_ok.mp h
  obtain ⟨x, -, h⟩ := Except.bind_eq_ok.mp h
  obtain ⟨particles₁, ha, h⟩ := Except.bind_eq_ok.mp h
  obtain ⟨-, -, -, hlength, -⟩ := Particles.appendParticles_eq_ok (uncaught_eq_ok.mp ha)
  split_ifs at h
  · obtain ⟨weights, -, h⟩ := Except.bind_eq_ok.mp h
    rw [← hlength]
    exact (Particles.resampleParticles_eq_ok (uncaught_eq_ok.mp h)).2.2.2.1
  · cases h
    exact hlength

/-! ## The traces -/

/-- `particleFilter` returns a table of a row for each observation and a column for each particle, and
every column is a path of the model. -/
def ReturnsPaths (env : Env K) (model : StochasticVolatilityModel K) (y : List K) (n seed : UInt32) :
    Prop :=
  ∃ table, (particleFilter env model y n seed).result = .ok table ∧
    table.particleLength = y.length ∧ table.particleCount = n.toNat ∧
    table.columns.length = n.toNat ∧
    ∀ column ∈ table.columns, IsPath env model n.toNat seed y.length column

/-- What is returned has a row for each iteration that there was, and no counter has overflowed. -/
theorem particleFilter_eq_ok {table : Particles K}
    (h : (particleFilter env model y n seed).result = .ok table) :
    table.particleLength = (observations y).toNat ∧ (observations y).toNat + 1 < 2 ^ 31 ∧
      n.toNat < 2 ^ 31 := by
  rw [particleFilter, Logged.result_bind] at h
  obtain ⟨particles, hr, htable⟩ := Except.bind_eq_ok.mp h
  obtain ⟨particles₀, -, hloop, hsmall, hlength₀⟩ := startLoop_eq_ok hr
  have hcounter : (observations y).toNat + 1 < 2 ^ 31 := by
    by_contra hcounter
    exact forAfter_ne_ok (by omega) particles hloop
  have hkept : particles.particleLength = (observations y + 1).toNat :=
    forAfter_invariant (fun _ _ _ h hs => (filterStep_length h).trans hs) hlength₀ hloop
  have hrows : (observations y + 1).toNat = (observations y).toNat + 1 := by
    rw [UInt32.toNat_add]
    exact Nat.mod_eq_of_lt (by simp; omega)
  have htwo : 2 ≤ particles.particleLength := by
    rw [Logged.result_ofExcept, Particles.getParticlesWithoutInit] at htable
    split_ifs at htable with hone
    omega
  obtain ⟨table', htable', -, hlength', -⟩ := Particles.getParticlesWithoutInit_eq htwo
  obtain rfl : table' = table := Except.ok.inj (htable'.symm.trans htable)
  exact ⟨by omega, hcounter, hsmall⟩

theorem particleFilter_paths (hexp : ∀ x, 0 < env.exp x) (hy : 1 ≤ y.length) (hn : n ≠ 0)
    (hlong : y.length + 1 < 2 ^ 31) (hsmall : n.toNat < 2 ^ 31) : ReturnsPaths env model y n seed := by
  obtain ⟨particles, hr, h, hpaths⟩ :=
    filterAfter_follows model seed hexp (toNat_ne_zero hn) hsmall (le_refl y.length)
  have hlength := h.length
  obtain ⟨table, ht, hcount, hlength', -, hcols⟩ :=
    Particles.getParticlesWithoutInit_eq (by omega : 2 ≤ particles.particleLength)
  have hrun : (particleFilter env model y n seed).result = .ok table := by
    rw [particleFilter, Logged.result_bind, toNat_observations (by omega),
      filterAfter_result (by omega) hlong, hr]
    exact ht
  refine ⟨table, hrun, by omega, hcount.trans h.count, ?_, fun column hcolumn => ?_⟩
  · rw [table.columns_length, hcount, h.count]
  · rw [hcols] at hcolumn
    obtain ⟨full, hfull, rfl⟩ := List.mem_map.mp hcolumn
    exact (hpaths full hfull).isPath ((particles.column_length full hfull).trans hlength)

/-- For any draws and likelihoods, where the exponential is positive: the filter returns paths of the
model if and only if neither the counter of the loop nor a counter of the particles overflows. -/
theorem particleFilter_paths_iff (env : Env K) (hexp : ∀ x, 0 < env.exp x)
    (model : StochasticVolatilityModel K) {y : List K} (hy : 1 ≤ y.length) {n : UInt32} (hn : 1 ≤ n)
    (seed : UInt32) :
    ReturnsPaths env model y n seed ↔ y.length + 1 < 2 ^ 31 ∧ n.toNat < 2 ^ 31 := by
  constructor
  · rintro ⟨table, hr, hlength, -⟩
    -- as many rows as observations are there only if their number has not wrapped around
    obtain ⟨hrows, hlong, hsmall⟩ := particleFilter_eq_ok hr
    exact ⟨by omega, hsmall⟩
  · rintro ⟨hlong, hsmall⟩
    have hne : n ≠ 0 := by
      rintro rfl
      exact absurd hn (by decide)
    exact particleFilter_paths hexp hy hne hlong hsmall

/-- Two particles through two observations. -/
theorem particleFilter_paths_iff_still : ReturnsPaths stillEnv ⟨0, 0, 0⟩ [1, 2] 2 123 ∧
    ((particleFilter stillEnv ⟨0, 0, 0⟩ [1, 2] 2 123).result.map Particles.columns) =
      .ok [[0, 0], [0, 0]] :=
  ⟨(particleFilter_paths_iff stillEnv (fun _ => zero_lt_one) ⟨0, 0, 0⟩ (y := [1, 2]) (by decide)
    (n := 2) (by decide) 123).mpr ⟨by decide, by decide⟩, by decide +kernel⟩

/-- A number of observations that wraps around to zero leaves the table with the first row only. -/
theorem particleFilter_wrapped (h : observations y = 0) :
    (particleFilter env model y n seed).result =
      StochasticVolatility.start env model [] n.toNat seed >>= Particles.getParticlesWithoutInit := by
  have hzero : (observations y).toNat = 0 := by rw [h]; rfl
  have hone : (observations y + 1).toNat = ([] : List K).length + 1 := by rw [h]; rfl
  have hstart : start env model y n seed = StochasticVolatility.start env model [] n.toNat seed := by
    rw [start, StochasticVolatility.start, hone]
  rw [particleFilter, hzero]
  simp only [filterAfter, forAfter, Logged.result_bind, Logged.result_ofExcept, hstart]
  rcases StochasticVolatility.start env model [] n.toNat seed with e | particles <;> rfl

/-- `2 ^ 32` observations. -/
theorem particleFilter_throws :
    (particleFilter stillEnv ⟨0, 0, 0⟩ (.replicate (2 ^ 32) 0) 1 123).result =
        .error (.invalidArgument "Cannot remove initial particles.") ∧
      ¬ ReturnsPaths stillEnv ⟨0, 0, 0⟩ (.replicate (2 ^ 32) 0) 1 123 := by
  have hwrap : observations (List.replicate (2 ^ 32) (0 : ℚ)) = 0 := by
    rw [observations, List.length_replicate]
    rfl
  have hthrow : (particleFilter stillEnv ⟨0, 0, 0⟩ (.replicate (2 ^ 32) 0) 1 123).result =
      .error (.invalidArgument "Cannot remove initial particles.") := by
    rw [particleFilter_wrapped hwrap]
    decide +kernel
  refine ⟨hthrow, ?_⟩
  rintro ⟨table, hr, -⟩
  rw [hthrow] at hr
  cases hr

/-! ## The log -/

theorem propose_log {t : ℕ} {particles : Particles K} : ∀ o ∈
    (propose env model n loopSeed t particles).log, o = ⟨t, .sample, loopSeed.toUInt32⟩ := by
  refine Logged.forall_log_bind (by simp) fun latestParticles => Logged.forall_log_bind (by simp)
    fun noise => Logged.forall_log_bind (by simp [sample]) fun e => Logged.forall_log_bind (by simp)
    fun dist => by simp

theorem filterStep_log {t : ℕ} {particles : Particles K} : ∀ o ∈
    (filterStep env model y n loopSeed t particles).log, o.iteration = t := by
  refine Logged.forall_log_bind ?_ fun r => Logged.forall_log_bind (by simp) fun x =>
    Logged.forall_log_bind (by simp) fun particles' => ?_
  · intro o ho
    rw [propose_log o ho]
  · split_ifs <;> simp [resampleParticles]

theorem likelihoodStep_log {t : ℕ} {s : Particles K × K} : ∀ o ∈
    (likelihoodStep env model y n loopSeed t s).log, o.iteration = t := by
  refine Logged.forall_log_bind ?_ fun r => Logged.forall_log_bind (by simp) fun x =>
    Logged.forall_log_bind (by simp) fun particles' =>
      Logged.forall_log_bind (by simp [resampleParticles]) fun particles'' => by simp
  intro o ho
  rw [propose_log o ho]

section For

variable {σ : Type u} {body : ℕ → σ → Logged Seeding Fault σ} {s : σ}

/-- What a loop has noted, its iterations have. -/
theorem forAfter_log (hbody : ∀ t s, ∀ o ∈ (body t s).log, o.iteration = t) : ∀ {t : ℕ},
    ∀ o ∈ (forAfter body s t).log, 1 ≤ o.iteration ∧ o.iteration ≤ t
  | 0 => by simp [forAfter]
  | t + 1 => by
    refine Logged.forall_log_bind ?_ fun s' => Logged.forall_log_bind ?_ fun s'' => ?_
    · intro o ho
      obtain ⟨hlow, hhigh⟩ := forAfter_log hbody o ho
      exact ⟨hlow, by omega⟩
    · intro o ho
      rw [hbody _ _ o ho]
      omega
    · split_ifs <;> simp

/-- An iteration that is reached notes what its body does. -/
theorem mem_forAfter {s' : σ} {t : ℕ} (hs : (forAfter body s t).result = .ok s') {o : Seeding}
    (ho : o ∈ (body (t + 1) s').log) : ∀ {T : ℕ}, t < T → o ∈ (forAfter body s T).log := by
  intro T hT
  induction T, hT using Nat.le_induction with
  | base =>
    rw [forAfter]
    exact Logged.mem_log_bind.mpr (.inr ⟨s', hs, Logged.mem_log_bind.mpr (.inl ho)⟩)
  | succ T _ ih =>
    rw [forAfter]
    exact Logged.mem_log_bind.mpr (.inl ih)

/-- Nothing is noted after an iteration that throws. -/
theorem forAfter_log_of_error (hbody : ∀ t s, ∀ o ∈ (body t s).log, o.iteration = t) {t : ℕ}
    (herror : ∀ s', (forAfter body s t).result ≠ .ok s') : ∀ {T : ℕ}, t ≤ T →
    (∀ s', (forAfter body s T).result ≠ .ok s') ∧ ∀ o ∈ (forAfter body s T).log, o.iteration ≤ t := by
  intro T hT
  induction T, hT using Nat.le_induction with
  | base => exact ⟨herror, fun o ho => (forAfter_log hbody o ho).2⟩
  | succ T _ ih =>
    refine ⟨fun s' hs' => ?_, fun o ho => ?_⟩
    · obtain ⟨-, s₁, h₁, -⟩ := forAfter_eq_ok hs'
      exact ih.1 s₁ h₁
    · rw [forAfter] at ho
      rcases Logged.mem_log_bind.mp ho with ho | ⟨s₁, h₁, -⟩
      · exact ih.2 o ho
      · exact absurd h₁ (ih.1 s₁)

end For

/-! ## Seeds -/

/-- No two iterations pass the same seed on to a generator. -/
def OwnSeeds (log : List Seeding) : Prop :=
  ∀ o ∈ log, ∀ o' ∈ log, o.generator = o'.generator → o.iteration ≠ o'.iteration → o.seed ≠ o'.seed

/-- One iteration has no other to share its seed with. -/
theorem ownSeeds_of_one {log : List Seeding} (h : ∀ o ∈ log, o.iteration = 1) : OwnSeeds log :=
  fun o ho o' ho' _ hne => absurd ((h o ho).trans (h o' ho').symm) hne

theorem not_ownSeeds {log : List Seeding} (h₁ : ⟨1, .sample, seed⟩ ∈ log)
    (h₂ : ⟨2, .sample, seed⟩ ∈ log) : ¬ OwnSeeds log :=
  fun hown => hown _ h₁ _ h₂ rfl (by simp) rfl

/-- The particles that the first iteration moves on from the draw at the start. -/
def movedFirst (env : Env K) (model : StochasticVolatilityModel K) (n : ℕ) (seed : UInt32) : List K :=
  List.zipWith (transition env model) (draw env 0 seed n model.mu (env.exp model.sigma))
    (draw env 1 seed n 0 (env.exp model.sigma))

omit [Div K] [NatCast K] in
theorem moved_start {particles : Particles K}
    (h : StochasticVolatility.start env model y n.toNat seed = .ok particles) :
    moved env model n.toNat seed 0 particles = movedFirst env model n.toNat seed := by
  rw [moved, (start_eq_ok h).2.2.2, movedFirst, List.map_map]
  congr 1
  exact List.map_id'' (fun _ => rfl) _

/-- An iteration that is begun draws its noise. -/
theorem sample_mem_propose (hn : n ≠ 0)
    (hs : ¬ Refused env (.replicate n.toNat (env.exp model.sigma))) {t : ℕ} {particles : Particles K}
    (h : Shaped y n.toNat t particles) (ht : t ≤ y.length) :
    (⟨t + 1, .sample, loopSeed.toUInt32⟩ : Seeding) ∈
      (propose env model n loopSeed (t + 1) particles).log := by
  obtain ⟨noise, hc⟩ := constant_ok 0 (toNat_ne_zero hn) hs
  refine Logged.mem_log_bind.mpr (.inr ⟨_, getLatestParticles_ok h ht, ?_⟩)
  refine Logged.mem_log_bind.mpr (.inr ⟨_, hc, ?_⟩)
  exact Logged.mem_log_bind.mpr (.inl (by simp [sample]))

/-- What the two loop bodies have in common: they begin an iteration with `propose`, and come to its
end as soon as that has not thrown. -/
structure Proposes (env : Env K) (model : StochasticVolatilityModel K) (y : List K) (n : UInt32)
    (loopSeed : Int32) {σ : Type u} (table : σ → Particles K)
    (body : ℕ → σ → Logged Seeding Fault σ) : Prop where
  iteration : ∀ t s, ∀ o ∈ (body t s).log, o.iteration = t
  begins : ∀ t s, ∀ o ∈ (propose env model n loopSeed t (table s)).log, o ∈ (body t s).log
  proposed : ∀ t s s', (body t s).result = .ok s' → ∃ r,
    StochasticVolatility.propose env model n.toNat loopSeed.toUInt32 t (table s) = .ok r
  ends : ∀ t s r, Shaped y n.toNat t (table s) → t < y.length →
    StochasticVolatility.propose env model n.toNat loopSeed.toUInt32 (t + 1) (table s) = .ok r →
      ∃ s', (body (t + 1) s).result = .ok s' ∧ Shaped y n.toNat (t + 1) (table s')

theorem filterStep_proposes :
    Proposes env model y n loopSeed id (filterStep env model y n loopSeed) where
  iteration _ _ := filterStep_log
  begins _ _ _ ho := Logged.mem_log_bind.mpr (.inl ho)
  proposed t particles particles' h := by
    rw [filterStep_result] at h
    obtain ⟨r, hp, -⟩ := Except.bind_eq_ok.mp h
    exact ⟨r, hp⟩
  ends t particles r h ht hp := by
    obtain ⟨particles', hr, h', -⟩ := filterStep_of_propose h ht hp
    exact ⟨particles', by rw [filterStep_result]; exact hr, h'⟩

theorem likelihoodStep_proposes :
    Proposes env model y n loopSeed Prod.fst (likelihoodStep env model y n loopSeed) where
  iteration _ _ := likelihoodStep_log
  begins _ _ _ ho := Logged.mem_log_bind.mpr (.inl ho)
  proposed t s s' h := by
    rw [likelihoodStep, Logged.result_bind, propose_result] at h
    obtain ⟨r, hp, -⟩ := Except.bind_eq_ok.mp h
    exact ⟨r, hp⟩
  ends t s r h ht hp := by
    obtain ⟨particles', hr, h'⟩ := likelihoodStep_ok h ht hp s.2
    exact ⟨_, hr, h'⟩

/-- The constructors let a loop get to its second iteration. -/
def ReachesTwo (env : Env K) (model : StochasticVolatilityModel K) (n : ℕ) (seed : UInt32) : Prop :=
  n ≠ 0 ∧ n < 2 ^ 31 ∧ ¬ Refused env (.replicate n (env.exp model.sigma)) ∧
    ¬ Refused env (stdDevsAt env (movedFirst env model n seed))

section Loop

variable {σ : Type u} {table : σ → Particles K} {body : ℕ → σ → Logged Seeding Fault σ}
  {f : Particles K → σ}

/-- Both functions build the particles, and then loop from them. -/
def loop (env : Env K) (model : StochasticVolatilityModel K) (y : List K) (n seed : UInt32)
    (body : ℕ → σ → Logged Seeding Fault σ) (f : Particles K → σ) : Logged Seeding Fault σ :=
  Logged.ofExcept (start env model y n seed) >>= fun particles => forAfter body (f particles) y.length

theorem not_ownSeeds_loop (hbody : Proposes env model y n seed.toInt32 table body)
    (hf : ∀ particles, table (f particles) = particles) (hy : y.length < 2 ^ 31)
    (hlong : 2 ≤ y.length) (hreach : ReachesTwo env model n.toNat seed) :
    ¬ OwnSeeds (loop env model y n seed body f).log := by
  obtain ⟨hn, hsmall, hs, hmoved⟩ := hreach
  obtain ⟨particles, hstart⟩ := start_ok model y seed hn hsmall hs
  obtain ⟨-, -, h, -⟩ := start_eq_ok hstart
  have hn' : n ≠ 0 := by
    rintro rfl
    exact hn rfl
  obtain ⟨dist, hp⟩ := propose_ok hn hs h (Nat.zero_le _) ((moved_start hstart).symm ▸ hmoved)
  obtain ⟨s₁, hs₁, h₁⟩ := hbody.ends 0 (f particles) _ ((hf particles).symm ▸ h) (by omega)
    (by rw [hf, UInt32.toUInt32_toInt32]; exact hp)
  have hseed : ∀ t s, Shaped y n.toNat t (table s) → t ≤ y.length →
      ⟨t + 1, .sample, seed⟩ ∈ (body (t + 1) s).log := by
    intro t s h ht
    have hmem := hbody.begins (t + 1) s _ (sample_mem_propose hn' hs h ht)
    rwa [UInt32.toUInt32_toInt32] at hmem
  have hone : (forAfter body (f particles) 1).result = .ok s₁ := by
    rw [forAfter_result (by decide)]
    exact hs₁
  rw [loop, start_eq hy]
  refine not_ownSeeds (?_ : (⟨1, .sample, seed⟩ : Seeding) ∈ _) ?_
  · exact Logged.mem_log_bind.mpr (.inr ⟨particles, hstart,
      mem_forAfter rfl (hseed 0 _ ((hf particles).symm ▸ h) (Nat.zero_le _)) (by omega)⟩)
  · exact Logged.mem_log_bind.mpr (.inr ⟨particles, hstart,
      mem_forAfter hone (hseed 1 _ h₁ (by omega)) (by omega)⟩)

theorem ownSeeds_loop (hbody : Proposes env model y n seed.toInt32 table body)
    (hf : ∀ particles, table (f particles) = particles) (hy : y.length < 2 ^ 31)
    (h : y.length ≤ 1 ∨ ¬ ReachesTwo env model n.toNat seed) :
    OwnSeeds (loop env model y n seed body f).log := by
  rw [loop, start_eq hy]
  refine ownSeeds_of_one fun o ho => ?_
  rcases Logged.mem_log_bind.mp ho with ho | ⟨particles, hstart, ho⟩
  · simp at ho
  have hrange := forAfter_log hbody.iteration o ho
  rcases h with hfew | hstop
  · omega
  obtain ⟨hn, hs, h, -⟩ := start_eq_ok hstart
  -- the first iteration throws
  have herror : ∀ s', (forAfter body (f particles) 1).result ≠ .ok s' := by
    intro s' hs'
    obtain ⟨-, s₀, h₀, hs'⟩ := forAfter_eq_ok hs'
    cases h₀
    obtain ⟨⟨latestParticles, dist⟩, hp⟩ := hbody.proposed _ _ _ hs'
    rw [hf, UInt32.toUInt32_toInt32] at hp
    obtain ⟨-, -, hmoved⟩ := propose_eq_ok h (Nat.zero_le _) hp
    rw [moved_start hstart] at hmoved
    exact hstop ⟨hn, h.small, hs, hmoved⟩
  have := (forAfter_log_of_error hbody.iteration herror (by omega : 1 ≤ y.length)).2 o ho
  omega

theorem ownSeeds_loop_iff (hbody : Proposes env model y n seed.toInt32 table body)
    (hf : ∀ particles, table (f particles) = particles) (hy : y.length < 2 ^ 31) :
    OwnSeeds (loop env model y n seed body f).log ↔
      y.length ≤ 1 ∨ ¬ ReachesTwo env model n.toNat seed := by
  refine ⟨fun hown => ?_, ownSeeds_loop hbody hf hy⟩
  by_contra hmany
  push Not at hmany
  exact not_ownSeeds_loop hbody hf hy hmany.1 hmany.2 hown

end Loop

/-- In each of the two loops the iterations have seeds of their own if and only if there is one
observation at most, or the constructors throw before the second iteration. -/
theorem ownSeeds_iff (env : Env K) (model : StochasticVolatilityModel K) {y : List K}
    (hy : y.length < 2 ^ 31) (n seed : UInt32) :
    (OwnSeeds (particleFilter env model y n seed).log ↔
        y.length ≤ 1 ∨ ¬ ReachesTwo env model n.toNat seed) ∧
      (OwnSeeds (logLikelihood env model y n seed).log ↔
        y.length ≤ 1 ∨ ¬ ReachesTwo env model n.toNat seed) := by
  have hT : (observations y).toNat = y.length := toNat_observations (by omega)
  refine ⟨?_, ?_⟩
  · rw [particleFilter, Logged.log_bind_ofExcept, hT]
    exact ownSeeds_loop_iff filterStep_proposes (fun _ => rfl) hy
  · rw [logLikelihood, Logged.log_bind_ofExcept, hT]
    exact ownSeeds_loop_iff likelihoodStep_proposes (fun _ => rfl) hy

/-- One observation. -/
theorem ownSeeds_iff_single :
    OwnSeeds (particleFilter stillEnv ⟨0, 0, 0⟩ [1] 1 123).log ∧
      OwnSeeds (logLikelihood stillEnv ⟨0, 0, 0⟩ [1] 1 123).log :=
  have h := ownSeeds_iff stillEnv ⟨0, 0, 0⟩ (y := [1]) (by decide) 1 123
  ⟨h.1.mpr (.inl (by decide)), h.2.mpr (.inl (by decide))⟩

/-- Two observations: the seed is `123` in both iterations. -/
theorem seeds_repeat :
    (particleFilter stillEnv ⟨0, 0, 0⟩ [1, 2] 1 123).log =
        [⟨1, .sample, 123⟩, ⟨1, .resampleParticles, 123⟩, ⟨2, .sample, 123⟩,
          ⟨2, .resampleParticles, 123⟩] ∧
      ¬ OwnSeeds (particleFilter stillEnv ⟨0, 0, 0⟩ [1, 2] 1 123).log ∧
      ¬ OwnSeeds (logLikelihood stillEnv ⟨0, 0, 0⟩ [1, 2] 1 123).log := by
  have hfilter : (particleFilter stillEnv ⟨0, 0, 0⟩ [1, 2] 1 123).log =
      [⟨1, .sample, 123⟩, ⟨1, .resampleParticles, 123⟩, ⟨2, .sample, 123⟩,
        ⟨2, .resampleParticles, 123⟩] := by decide +kernel
  have hlikelihood : (logLikelihood stillEnv ⟨0, 0, 0⟩ [1, 2] 1 123).log =
      (particleFilter stillEnv ⟨0, 0, 0⟩ [1, 2] 1 123).log := by decide +kernel
  rw [hlikelihood, hfilter]
  have hrepeat : ¬ OwnSeeds [⟨1, .sample, 123⟩, ⟨1, .resampleParticles, 123⟩, ⟨2, .sample, 123⟩,
      ⟨2, .resampleParticles, 123⟩] :=
    not_ownSeeds List.mem_cons_self (.tail _ (.tail _ List.mem_cons_self))
  exact ⟨rfl, hrepeat, hrepeat⟩

/-! ## The average -/

/-- The log-likelihoods in iteration `t + 1` of `logLikelihood`, those of `y[t]` at the particles that
the iteration has moved on. -/
def logLikelihoodsIn (env : Env K) (model : StochasticVolatilityModel K) (y : List K)
    (n seed : UInt32) (t : ℕ) : Except Fault (List K) := do
  let (particles, _) ← (likelihoodAfter env model y n seed t).result
  let (_, dist) ← StochasticVolatility.propose env model n.toNat seed (t + 1) particles
  let x ← observation y (t + 1)
  .ok (env.logLikelihoods (t + 1) dist x)

/-- `logLikelihood` returns the average of all log-likelihoods. -/
def Exact (env : Env K) (model : StochasticVolatilityModel K) (y : List K) (n seed : UInt32) : Prop :=
  ∃ (v : K) (terms : ℕ → List K), (logLikelihood env model y n seed).result = .ok v ∧
    (∀ t < y.length, logLikelihoodsIn env model y n seed t = .ok (terms t) ∧
      (terms t).length = n.toNat) ∧
    v * ((y.length * n.toNat : ℕ) : K) = ((List.range y.length).map fun t => (terms t).sum).sum

end Doubles

section Exact

variable {K : Type u} [Field K] [LinearOrder K] {env : Env K} {model : StochasticVolatilityModel K}
  {y : List K} {n seed : UInt32}

omit [LinearOrder K] in
theorem sum_update (terms : ℕ → List K) (t : ℕ) (logs : List K) :
    ((List.range (t + 1)).map fun i => (Function.update terms t logs i).sum).sum =
      ((List.range t).map fun i => (terms i).sum).sum + logs.sum := by
  rw [List.sum_range_succ, Function.update_self]
  congr 2
  refine List.map_congr_left fun i hi => ?_
  rw [Function.update_of_ne (List.mem_range.mp hi).ne]

/-- Every iteration is reached, with the sum of the log-likelihoods so far. -/
theorem likelihoodAfter_sum (hexp : ∀ x, 0 < env.exp x) (model : StochasticVolatilityModel K)
    (hy : y.length < 2 ^ 31) (hn : n ≠ 0) (hsmall : n.toNat < 2 ^ 31) (seed : UInt32) : ∀ {t : ℕ},
    t ≤ y.length → t + 1 < 2 ^ 31 → ∃ (particles : Particles K) (terms : ℕ → List K),
      (likelihoodAfter env model y n seed t).result =
        .ok (particles, ((List.range t).map fun i => (terms i).sum).sum) ∧
      Shaped y n.toNat t particles ∧
      ∀ i < t, logLikelihoodsIn env model y n seed i = .ok (terms i) ∧ (terms i).length = n.toNat
  | 0, _, _ => by
    obtain ⟨particles, hs⟩ := start_ok model y seed (toNat_ne_zero hn) hsmall
      (not_refused_replicate (hexp model.sigma) (toNat_ne_zero hn))
    refine ⟨particles, fun _ => [], ?_, (start_eq_ok hs).2.2.1, by simp⟩
    rw [likelihoodAfter, Logged.result_bind, start_eq hy, Logged.result_ofExcept, hs]
    rfl
  | t + 1, ht, ht' => by
    obtain ⟨particles, terms, hr, h, hterms⟩ :=
      likelihoodAfter_sum hexp model hy hn hsmall seed (Nat.le_of_succ_le ht) (by omega)
    obtain ⟨dist, hp⟩ := propose_ok (toNat_ne_zero hn)
      (not_refused_replicate (hexp model.sigma) (toNat_ne_zero hn)) h (Nat.le_of_succ_le ht)
      (not_refused_moved seed hexp (toNat_ne_zero hn) h)
    obtain ⟨particles', hstep, h'⟩ := likelihoodStep_ok h ht (UInt32.toUInt32_toInt32 seed ▸ hp)
      ((List.range t).map fun i => (terms i).sum).sum
    set logs := env.logLikelihoods (t + 1) dist y[t] with hlogs
    have hlast : logLikelihoodsIn env model y n seed t = .ok logs := by
      simp only [logLikelihoodsIn, hr, hp, Except.ok_bind, observation_ok ht, hlogs]
    refine ⟨particles', Function.update terms t logs, ?_, h', fun i hi => ?_⟩
    · rw [likelihoodAfter_succ ht', hr, Except.ok_bind, sum_update]
      exact hstep
    · rcases Nat.lt_succ_iff_lt_or_eq.mp hi with hi | rfl
      · rw [Function.update_of_ne hi.ne]
        exact hterms i hi
      · rw [Function.update_self]
        exact ⟨hlast, (env.logLikelihoods_length _ _ _).trans
          (propose_eq_ok h (Nat.le_of_succ_le ht) hp).2.1⟩

omit [Field K] [LinearOrder K] in
theorem toNat_terms (hy : y.length < 2 ^ 32) :
    (observations y * n).toNat = y.length * n.toNat % 2 ^ 32 := by
  rw [UInt32.toNat_mul, toNat_observations hy]

/-- What is divided is the sum of all log-likelihoods. -/
theorem logLikelihood_result (hexp : ∀ x, 0 < env.exp x) (model : StochasticVolatilityModel K)
    (hy : y.length + 1 < 2 ^ 31) (hn : n ≠ 0) (hsmall : n.toNat < 2 ^ 31) (seed : UInt32) :
    ∃ terms : ℕ → List K,
      (∀ t < y.length, logLikelihoodsIn env model y n seed t = .ok (terms t) ∧
        (terms t).length = n.toNat) ∧
      (logLikelihood env model y n seed).result =
        if y.length * n.toNat % 2 ^ 32 = 0 then .error .divideByZero
        else .ok (((List.range y.length).map fun t => (terms t).sum).sum /
          ((y.length * n.toNat % 2 ^ 32 : ℕ) : K)) := by
  obtain ⟨particles, terms, hr, -, hterms⟩ :=
    likelihoodAfter_sum hexp model (by omega) hn hsmall seed le_rfl hy
  refine ⟨terms, hterms, ?_⟩
  have hzero : observations y * n = 0 ↔ y.length * n.toNat % 2 ^ 32 = 0 := by
    rw [← UInt32.toNat_inj, toNat_terms (by omega), UInt32.toNat_zero]
  simp only [logLikelihood, Logged.result_bind, Logged.result_ofExcept,
    toNat_observations (by omega : y.length < 2 ^ 32), hr, Except.ok_bind, hzero,
    toNat_terms (by omega : y.length < 2 ^ 32)]

/-- A value is returned only where no counter overflows, of the loop or of the particles. -/
theorem logLikelihood_eq_ok (hy : y.length < 2 ^ 32) {v : K}
    (h : (logLikelihood env model y n seed).result = .ok v) :
    y.length + 1 < 2 ^ 31 ∧ n.toNat < 2 ^ 31 := by
  rw [logLikelihood, Logged.result_bind, toNat_observations hy] at h
  obtain ⟨s, hs, -⟩ := Except.bind_eq_ok.mp h
  obtain ⟨particles, -, hloop, hsmall, -⟩ := startLoop_eq_ok hs
  refine ⟨?_, hsmall⟩
  by_contra hlong
  exact forAfter_ne_ok (by omega) s hloop

/-- Every draw is zero, and every log-likelihood one. -/
def unitEnv (K : Type u) [Field K] [LinearOrder K] [IsStrictOrderedRing K] : Env K where
  exp _ := 1
  tanh _ := 0
  normal _ _ n := .replicate n 0
  normal_length _ _ _ := List.length_replicate
  discrete _ _ _ col := col
  nanMin _ := 0
  pdfs _ dist _ := dist.means.map fun _ => 1
  pdfs_length _ _ _ := List.length_map _
  pdfs_nonneg _ _ _ _ l hl := by
    obtain ⟨-, -, rfl⟩ := List.mem_map.mp hl
    exact zero_le_one.not_gt
  logLikelihoods _ dist _ := dist.means.map fun _ => 1
  logLikelihoods_length _ _ _ := List.length_map _

variable [IsStrictOrderedRing K]

theorem unitEnv_sum {t : ℕ} {terms : List K}
    (h : logLikelihoodsIn (unitEnv K) model y n seed t = .ok terms) : terms.sum = terms.length := by
  obtain ⟨r, -, h⟩ := Except.bind_eq_ok.mp h
  obtain ⟨r', -, h⟩ := Except.bind_eq_ok.mp h
  obtain ⟨x, -, h⟩ := Except.bind_eq_ok.mp h
  cases h
  simp [unitEnv]

/-- All the terms are one, so their sum is their number. -/
theorem unitEnv_total {terms : ℕ → List K} (h : ∀ t < y.length,
    logLikelihoodsIn (unitEnv K) model y n seed t = .ok (terms t) ∧ (terms t).length = n.toNat) :
    ((List.range y.length).map fun t => (terms t).sum).sum = ((y.length * n.toNat : ℕ) : K) := by
  have hone : ∀ t ∈ List.range y.length, (terms t).sum = (n.toNat : K) := fun t ht => by
    obtain ⟨hok, hlen⟩ := h t (List.mem_range.mp ht)
    rw [unitEnv_sum hok, hlen]
  rw [List.map_congr_left hone, List.map_const', List.length_range, List.sum_replicate,
    nsmul_eq_mul, Nat.cast_mul]

/-- Let the log-likelihoods be any numbers. The value that `logLikelihood` returns is their average
for all of them if and only if no counter overflows, of the loop or of the particles, and neither does
the number of terms. -/
theorem exact_iff (model : StochasticVolatilityModel K) {y : List K} (hy : 1 ≤ y.length)
    (hy' : y.length < 2 ^ 32) {n : UInt32} (hn : 1 ≤ n) (seed : UInt32) :
    (∀ env : Env K, (∀ x, 0 < env.exp x) → Exact env model y n seed) ↔
      y.length + 1 < 2 ^ 31 ∧ n.toNat < 2 ^ 31 ∧ y.length * n.toNat < 2 ^ 32 := by
  have hcount : 1 ≤ n.toNat := hn
  have hne : n ≠ 0 := by
    rintro rfl
    exact absurd hcount (by decide)
  have hpos : 1 ≤ y.length * n.toNat := Nat.mul_pos hy hcount
  have hunit : ∀ x, 0 < (unitEnv K).exp x := fun _ => zero_lt_one
  constructor
  · intro hall
    obtain ⟨v, terms, hv, hterms, hsum⟩ := hall (unitEnv K) hunit
    obtain ⟨hlong, hsmall⟩ := logLikelihood_eq_ok hy' hv
    refine ⟨hlong, hsmall, ?_⟩
    obtain ⟨terms', hterms', hv'⟩ := logLikelihood_result hunit model hlong hne hsmall seed
    rw [unitEnv_total hterms] at hsum
    rw [unitEnv_total hterms', hv] at hv'
    split_ifs at hv' with hzero
    have hv'' := Except.ok.inj hv'
    have hcast : ((y.length * n.toNat : ℕ) : K) ≠ 0 := Nat.cast_ne_zero.mpr (by omega)
    have hmod : ((y.length * n.toNat % 2 ^ 32 : ℕ) : K) ≠ 0 := Nat.cast_ne_zero.mpr hzero
    have hone : v = 1 := mul_right_cancel₀ hcast (hsum.trans (one_mul _).symm)
    rw [hone, eq_div_iff hmod, one_mul, Nat.cast_inj] at hv''
    have := Nat.mod_lt (y.length * n.toNat) (by decide : 0 < 2 ^ 32)
    omega
  · rintro ⟨hlong, hsmall, hterms⟩ env hexp
    obtain ⟨terms, hall, hv⟩ := logLikelihood_result hexp model hlong hne hsmall seed
    rw [Nat.mod_eq_of_lt hterms, if_neg (by omega)] at hv
    refine ⟨_, terms, hv, hall, div_mul_cancel₀ _ ?_⟩
    exact Nat.cast_ne_zero.mpr (by omega)

/-- Three particles through two observations. -/
theorem exact_iff_three : Exact stillEnv ⟨0, 0, 0⟩ [1, 2] 3 123 :=
  (exact_iff ⟨0, 0, 0⟩ (y := [1, 2]) (by decide) (by decide) (n := 3) (by decide) 123).mpr
    ⟨by decide, by decide, by decide⟩ stillEnv fun _ => zero_lt_one

/-- `65536` particles and as many observations: their product wraps around to zero. -/
theorem terms_wrap : (∀ x, 0 < (unitEnv ℚ).exp x) ∧
    (logLikelihood (unitEnv ℚ) ⟨0, 0, 0⟩ (.replicate 65536 0) 65536 123).result =
        .error .divideByZero ∧
      ¬ Exact (unitEnv ℚ) ⟨0, 0, 0⟩ (.replicate 65536 0) 65536 123 := by
  have hunit : ∀ x, 0 < (unitEnv ℚ).exp x := fun _ => zero_lt_one
  have hlength : (List.replicate 65536 (0 : ℚ)).length = 65536 := List.length_replicate
  obtain ⟨terms, -, hv⟩ := logLikelihood_result hunit ⟨0, 0, 0⟩
    (y := .replicate 65536 (0 : ℚ)) (n := 65536) (by rw [hlength]; decide) (by decide) (by decide) 123
  rw [hlength, if_pos (by decide)] at hv
  refine ⟨hunit, hv, ?_⟩
  rintro ⟨v, -, hv', -⟩
  rw [hv] at hv'
  cases hv'

end Exact

end Machine

end StochasticVolatility

end SideProjects
