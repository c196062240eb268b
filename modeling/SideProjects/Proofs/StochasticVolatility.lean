import Mathlib.Algebra.Field.Rat
import Mathlib.Algebra.Order.Ring.Rat
import SideProjects.StochasticVolatility

/-!
# The traces of the particle filter

After iteration `t` the rows up to `t` are filled. Every column is a path of the model so far
(`Follows`): a row is the row before it, moved by the transition and by a component of that
iteration's noise. Appending a row makes every path one longer, and resampling copies whole columns,
so the columns it leaves are columns that were there.
-/

namespace SideProjects

namespace StochasticVolatility

variable {K : Type*} {y : List K} {n : ℕ} {seed : UInt32}

/-- The table after `t` iterations: its size, with columns that an `int` can count, and how far it is
filled. -/
structure Shaped (y : List K) (n t : ℕ) (particles : Particles K) : Prop where
  small : n < 2 ^ 31
  count : particles.particleCount = n
  length : particles.particleLength = y.length + 1
  row : particles.currentRow = t

/-! ## The table -/

namespace Particles

theorem appendParticles_eq_ok {particles particles' : Particles K} {newParticles : List K}
    (h : particles.appendParticles newParticles = (.ok (), particles')) :
    newParticles.length = particles.particleCount ∧
      particles.currentRow + 1 < particles.particleLength ∧
      particles'.particleCount = particles.particleCount ∧
      particles'.particleLength = particles.particleLength ∧
      particles'.currentRow = particles.currentRow + 1 ∧
      particles'.columns = List.zipWith (fun column x => column.set (particles.currentRow + 1) x)
        particles.columns newParticles := by
  unfold appendParticles at h
  split_ifs at h with hfull hcount hzero
  · cases h
  · cases h
  · cases h
  · cases h
    exact ⟨not_not.mp hcount, by omega, rfl, rfl, rfl, rfl⟩

theorem appendParticles_error {particles : Particles K} {newParticles : List K} {e : Fault}
    (h : (particles.appendParticles newParticles).1 = .error e) :
    (particles.appendParticles newParticles).2 = particles := by
  unfold appendParticles at h ⊢
  split_ifs at h ⊢ <;> rfl

/-- There is room for a row of the right length unless the last row has been written. -/
theorem appendParticles_iff {particles : Particles K} (hlength : 1 ≤ particles.particleLength)
    (newParticles : List K) :
    (particles.appendParticles newParticles).1 = .ok () ↔
      newParticles.length = particles.particleCount ∧
        particles.currentRow < particles.particleLength - 1 := by
  constructor
  · intro h
    obtain ⟨hcount, hroom, -⟩ := appendParticles_eq_ok (Prod.ext h rfl)
    exact ⟨hcount, by omega⟩
  · rintro ⟨hcount, hroom⟩
    unfold appendParticles
    rw [if_neg (by omega), dif_neg (not_not.mpr hcount), if_neg (by omega)]

end Particles

theorem appendParticles_ok {t : ℕ} {particles : Particles K} (h : Shaped y n t particles)
    (ht : t < y.length) {newParticles : List K} (hnew : newParticles.length = n) :
    ∃ particles', particles.appendParticles newParticles = (.ok (), particles') ∧
      Shaped y n (t + 1) particles' ∧
      particles'.columns =
        List.zipWith (fun column x => column.set (t + 1) x) particles.columns newParticles := by
  obtain ⟨hsmall, hcount, hlength, hrow⟩ := h
  have hroom := (Particles.appendParticles_iff (by omega : 1 ≤ particles.particleLength)
    newParticles).mpr ⟨hnew.trans hcount.symm, by omega⟩
  obtain ⟨-, -, hcount', hlength', hrow', hcolumns⟩ :=
    Particles.appendParticles_eq_ok (Prod.ext hroom rfl)
  refine ⟨_, Prod.ext hroom rfl, ⟨hsmall, hcount'.trans hcount, hlength'.trans hlength, ?_⟩, ?_⟩
  · rw [hrow', hrow]
  · rw [hcolumns, hrow]

theorem observation_ok {t : ℕ} (ht : t < y.length) : observation y (t + 1) = .ok y[t] := by
  simp [observation, ht]

variable [Zero K]

theorem getLatestParticles_ok {t : ℕ} {particles : Particles K} (h : Shaped y n t particles)
    (ht : t ≤ y.length) :
    particles.getLatestParticles = .ok (particles.columns.map (·.getD t 0)) := by
  unfold Particles.getLatestParticles
  rw [h.row, h.length, if_pos (by omega)]

/-- The rows are as they were, but the counter starts again. -/
theorem Particles.getParticlesWithoutInit_eq {particles : Particles K}
    (h : 2 ≤ particles.particleLength) :
    ∃ q, particles.getParticlesWithoutInit = .ok q ∧ q.particleCount = particles.particleCount ∧
      q.particleLength + 1 = particles.particleLength ∧ q.currentRow = 0 ∧
      q.columns = particles.columns.map (·.drop 1) := by
  have hcount : (particles.columns.map (·.drop 1)).length = particles.particleCount := by
    rw [List.length_map, particles.columns_length]
  unfold Particles.getParticlesWithoutInit Particles.ofMatrix
  rw [if_neg (by omega), if_neg (by omega), dif_neg (Nat.lt_irrefl _),
    dif_pos (hcount.symm ▸ particles.count_lt)]
  exact ⟨_, rfl, hcount, Nat.sub_add_cancel (by omega), rfl, by simp⟩

variable [LE K] [LT K] {env : Env K} {model : StochasticVolatilityModel K}

theorem Particles.resampleParticles_eq_ok {t : ℕ} {particles particles' : Particles K}
    {weights : List K}
    (h : particles.resampleParticles env t weights seed = (.ok (), particles')) :
    weights.length = particles.particleCount ∧ particles.particleCount < 2 ^ 31 ∧
      particles'.particleCount = particles.particleCount ∧
      particles'.particleLength = particles.particleLength ∧
      particles'.currentRow = particles.currentRow ∧
      ∀ (c : ℕ) (hc : c < weights.length), particles'.columns[c]? =
        particles.columns[(env.discrete t weights seed ⟨c, hc⟩ : ℕ)]? := by
  unfold Particles.resampleParticles at h
  split_ifs at h with hweights hlarge
  · cases h
  · cases h
    refine ⟨hweights, Nat.not_le.mp hlarge, rfl, rfl, rfl, fun c hc => ?_⟩
    simp [hc, particles.columns_length.trans hweights.symm]
  · cases h

theorem resampleParticles_ok (env : Env K) (seed : UInt32) {t : ℕ} {particles : Particles K}
    (h : Shaped y n t particles) (r : ℕ) {weights : List K} (hw : weights.length = n) :
    ∃ particles', particles.resampleParticles env r weights seed = (.ok (), particles') ∧
      Shaped y n t particles' ∧ ∀ column ∈ particles'.columns, column ∈ particles.columns := by
  unfold Particles.resampleParticles
  rw [dif_pos (hw.trans h.count.symm), if_neg (Nat.not_le.mpr (h.count.symm ▸ h.small))]
  refine ⟨_, rfl, ⟨h.small, h.count, h.length, h.row⟩, fun column hcolumn => ?_⟩
  obtain ⟨col, -, rfl⟩ := List.mem_map.mp hcolumn
  exact List.get_mem _ _

/-! ## Draws -/

/-- As an `int` a size stays what it is if it fits. -/
theorem int_size_iff (size : ℕ) :
    0 ≤ Int32.ofNat size ∧ (Int32.ofNat size).toInt.toNat = size ↔ size < 2 ^ 31 := by
  constructor
  · rintro ⟨-, hsize⟩
    have := (Int32.ofNat size).toInt_lt
    omega
  · intro hlt
    have hsize : (Int32.ofNat size).toInt = size := Int32.toInt_ofNat_of_lt hlt
    refine ⟨Int32.le_iff_toInt_le.mpr ?_, by rw [hsize, Int.toNat_natCast]⟩
    rw [hsize]
    exact Int.natCast_nonneg _

section Draws

variable [Add K] [Mul K]

/-- The draw in iteration `t` of `n` numbers around a mean: `IndependentVectorNormal(mean, stdDev,
n).sample(seed)`. -/
def draw (env : Env K) (t : ℕ) (seed : UInt32) (n : ℕ) (mean stdDev : K) : List K :=
  List.zipWith (· + ·) (List.zipWith (· * ·) (env.normal t seed n) (.replicate n stdDev))
    (.replicate n mean)

theorem length_draw (env : Env K) (t : ℕ) (seed : UInt32) (n : ℕ) (mean stdDev : K) :
    (draw env t seed n mean stdDev).length = n := by
  simp [draw, env.normal_length]

/-- Where a particle at `x` moves with the noise `e`. -/
def transition [Sub K] (env : Env K) (model : StochasticVolatilityModel K) (x e : K) : K :=
  model.mu + env.tanh model.phi * (x - model.mu) + e

/-- The rows of a column up to `t` are a path of the model. -/
def Follows [Sub K] (env : Env K) (model : StochasticVolatilityModel K) (n : ℕ) (seed : UInt32) (t : ℕ)
    (column : List K) : Prop :=
  (∃ x ∈ draw env 0 seed n model.mu (env.exp model.sigma), column[0]? = some x) ∧
    ∀ r < t, ∃ x, column[r]? = some x ∧
      ∃ e ∈ draw env (r + 1) seed n 0 (env.exp model.sigma),
        column[r + 1]? = some (transition env model x e)

theorem sample_eq (env : Env K) (dist : IndependentVectorNormal K) (t : ℕ) (seed : UInt32) :
    dist.sample env t seed =
      if dist.means.length < 2 ^ 31 then .ok (List.zipWith (· + ·)
        (List.zipWith (· * ·) (env.normal t seed dist.means.length) dist.stdDevs) dist.means)
      else .error .undefinedBehaviour := by
  unfold IndependentVectorNormal.sample
  by_cases h : 0 ≤ dist.sampleSize ∧ dist.sampleSize.toInt.toNat = dist.means.length
  · rw [if_pos h, if_pos ((int_size_iff _).mp h), h.2]
  · rw [if_neg h, if_neg (mt (int_size_iff _).mpr h)]

/-- The particles moved on from row `t`. -/
def moved [Sub K] (env : Env K) (model : StochasticVolatilityModel K) (n : ℕ) (seed : UInt32) (t : ℕ)
    (particles : Particles K) : List K :=
  List.zipWith (transition env model) (particles.columns.map (·.getD t 0))
    (draw env (t + 1) seed n 0 (env.exp model.sigma))

theorem length_moved [Sub K] (env : Env K) (model : StochasticVolatilityModel K) (seed : UInt32) {t : ℕ}
    {particles : Particles K} (h : Shaped y n t particles) :
    (moved env model n seed t particles).length = n := by
  rw [moved, List.length_zipWith, List.length_map, particles.columns_length, h.count, length_draw,
    Nat.min_self]

/-! ## Paths -/

theorem Follows.set [Sub K] {t : ℕ} {column : List K} (h : Follows env model n seed t column)
    (hlen : t + 1 < column.length) {x e : K} (hx : column[t]? = some x)
    (he : e ∈ draw env (t + 1) seed n 0 (env.exp model.sigma)) :
    Follows env model n seed (t + 1) (column.set (t + 1) (transition env model x e)) := by
  have hkeep : ∀ r ≤ t, (column.set (t + 1) (transition env model x e))[r]? = column[r]? :=
    fun r hr => List.getElem?_set_ne (by omega)
  obtain ⟨⟨x₀, hx₀, h₀⟩, hpath⟩ := h
  refine ⟨⟨x₀, hx₀, by rw [hkeep 0 (Nat.zero_le t), h₀]⟩, fun r hr => ?_⟩
  rcases Nat.lt_succ_iff_lt_or_eq.mp hr with hr | rfl
  · obtain ⟨x', hx', e', he', hnext⟩ := hpath r hr
    exact ⟨x', by rw [hkeep r hr.le, hx'], e', he', by rw [hkeep (r + 1) hr, hnext]⟩
  · exact ⟨x, by rw [hkeep r le_rfl, hx], e, he, List.getElem?_set_self hlen⟩

/-- The column is one path: from a particle of the draw at the start, each step is the model's
transition with a component of that iteration's noise. -/
def IsPath [Sub K] (env : Env K) (model : StochasticVolatilityModel K) (n : ℕ) (seed : UInt32) (T : ℕ)
    (column : List K) : Prop :=
  ∃ x : ℕ → K, x 0 ∈ draw env 0 seed n model.mu (env.exp model.sigma) ∧
    column = (List.range T).map (fun t => x (t + 1)) ∧
    ∀ t, 1 ≤ t → t ≤ T → ∃ e ∈ draw env t seed n 0 (env.exp model.sigma),
      x t = model.mu + env.tanh model.phi * (x (t - 1) - model.mu) + e

theorem Follows.isPath [Sub K] {T : ℕ} {full : List K} (h : Follows env model n seed T full)
    (hlen : full.length = T + 1) : IsPath env model n seed T (full.drop 1) := by
  obtain ⟨⟨x₀, hx₀, h₀⟩, hpath⟩ := h
  have hget : ∀ {r : ℕ} {x : K}, full[r]? = some x → full.getD r 0 = x := by
    intro r x hx
    rw [List.getD_eq_getElem?_getD, hx, Option.getD_some]
  have hfirst : full.getD 0 0 ∈ draw env 0 seed n model.mu (env.exp model.sigma) := by rwa [hget h₀]
  refine ⟨fun t => full.getD t 0, hfirst, ?_, fun t ht₁ ht₂ => ?_⟩
  · refine List.ext_getElem (by simp [hlen]) fun t h₁ h₂ => ?_
    rw [List.length_drop, hlen] at h₁
    have : t + 1 < full.length := by omega
    simp [List.getD_eq_getElem?_getD, this]
  · obtain ⟨t, rfl⟩ := Nat.exists_eq_add_of_le' ht₁
    obtain ⟨x, hx, e, he, hnext⟩ := hpath t (by omega)
    refine ⟨e, he, ?_⟩
    simp only [Nat.add_sub_cancel]
    rw [hget hnext, hget hx, transition]

end Draws

/-! ## Checks -/

variable [DecidableLE K] [DecidableLT K]

/-- The constructors throw at these standard deviations. -/
def Refused (env : Env K) (stdDevs : List K) : Prop := minCoeff env.nanMin stdDevs ≤ 0

variable [FloatOrder K]

theorem not_refused {stdDevs : List K} (hne : stdDevs ≠ []) (hpos : ∀ stdDev ∈ stdDevs, 0 < stdDev) :
    ¬ Refused env stdDevs := by
  have hnumbers : ∀ stdDev ∈ stdDevs, stdDev ≤ stdDev :=
    fun stdDev hmem => (FloatOrder.pos_iff.mp (hpos stdDev hmem)).1
  rw [Refused, minCoeff_le_iff hne hnumbers]
  rintro ⟨stdDev, hmem, hle⟩
  exact FloatOrder.not_le_of_lt (hpos stdDev hmem) hle

theorem not_refused_replicate {stdDev : K} (hpos : 0 < stdDev) (hn : n ≠ 0) :
    ¬ Refused env (.replicate n stdDev) :=
  not_refused (by simpa using hn) fun _ hs => List.eq_of_mem_replicate hs ▸ hpos

theorem constant_ok (mean : K) {stdDev : K} (hn : n ≠ 0)
    (hs : ¬ Refused env (.replicate n stdDev)) :
    ∃ dist, IndependentVectorNormal.constant env.nanMin mean stdDev n = .ok dist := by
  unfold IndependentVectorNormal.constant
  rw [if_neg hn]
  exact ⟨_, dif_neg hs⟩

theorem new_ok {means stdDevs : List K} (hlen : means.length = stdDevs.length)
    (hne : stdDevs ≠ []) (hs : ¬ Refused env stdDevs) :
    ∃ dist, IndependentVectorNormal.new env.nanMin means stdDevs = .ok dist := by
  unfold IndependentVectorNormal.new
  rw [dif_pos hlen, if_neg (by simpa using hne)]
  exact ⟨_, dif_neg hs⟩

theorem new_eq_ok {means stdDevs : List K} {dist : IndependentVectorNormal K}
    (h : IndependentVectorNormal.new env.nanMin means stdDevs = .ok dist) :
    dist.means = means ∧ ¬ Refused env stdDevs := by
  unfold IndependentVectorNormal.new at h
  split_ifs at h with hlen hne hs
  cases h
  exact ⟨rfl, hs⟩

/-! ## An iteration -/

variable [Add K] [Mul K]

theorem constant_eq_ok {mean stdDev : K} {dist : IndependentVectorNormal K}
    (h : IndependentVectorNormal.constant env.nanMin mean stdDev n = .ok dist) :
    n ≠ 0 ∧ ¬ Refused env (.replicate n stdDev) ∧ dist.means.length = n ∧
      ∀ t seed, dist.sample env t seed =
        if n < 2 ^ 31 then .ok (draw env t seed n mean stdDev) else .error .undefinedBehaviour := by
  unfold IndependentVectorNormal.constant at h
  split_ifs at h with hn hs
  cases h
  refine ⟨hn, hs, List.length_replicate, fun t seed => ?_⟩
  rw [sample_eq, List.length_replicate, draw]

/-- What the constructor of the table has checked. -/
theorem initial_eq_ok {mean stdDev : K} {particleLength : ℕ} {particles : Particles K}
    (h : (IndependentVectorNormal.constant env.nanMin mean stdDev n >>= fun dist =>
      Particles.ofNormal env dist particleLength seed) = .ok particles) :
    n ≠ 0 ∧ ¬ Refused env (.replicate n stdDev) ∧ n < 2 ^ 31 ∧ particles.particleCount = n ∧
      particles.particleLength = particleLength ∧ particles.currentRow = 0 ∧
      particles.columns = (draw env 0 seed n mean stdDev).map fun x =>
        x :: .replicate (particleLength - 1) 0 := by
  obtain ⟨dist, hc, h⟩ := Except.bind_eq_ok.mp h
  obtain ⟨hn, hs, hmeans, hsample⟩ := constant_eq_ok hc
  obtain ⟨samples, hsamples, h⟩ := Except.bind_eq_ok.mp h
  rw [hsample] at hsamples
  split_ifs at hsamples with hsmall
  cases hsamples
  unfold Particles.ofVector at h
  split_ifs at h
  cases h
  exact ⟨hn, hs, hsmall, length_draw env 0 seed n _ _, rfl, rfl, rfl⟩

theorem start_eq_ok {particles : Particles K} (h : start env model y n seed = .ok particles) :
    n ≠ 0 ∧ ¬ Refused env (.replicate n (env.exp model.sigma)) ∧ Shaped y n 0 particles ∧
      particles.columns = (draw env 0 seed n model.mu (env.exp model.sigma)).map fun x =>
        x :: .replicate y.length 0 := by
  obtain ⟨hn, hs, hsmall, hcount, hlength, hrow, hcolumns⟩ := initial_eq_ok h
  exact ⟨hn, hs, ⟨hsmall, hcount, hlength, hrow⟩, hcolumns⟩

theorem start_ok (model : StochasticVolatilityModel K) (y : List K) (seed : UInt32) (hn : n ≠ 0)
    (hsmall : n < 2 ^ 31) (hs : ¬ Refused env (.replicate n (env.exp model.sigma))) :
    ∃ particles, start env model y n seed = .ok particles := by
  obtain ⟨dist, hc⟩ := constant_ok model.mu hn hs
  have hlen := length_draw env 0 seed n model.mu (env.exp model.sigma)
  unfold start Particles.ofNormal Particles.ofVector
  rw [hc, Except.ok_bind, (constant_eq_ok hc).2.2.2, if_pos hsmall, Except.ok_bind,
    dif_pos ⟨Nat.succ_ne_zero _, by omega⟩]
  exact ⟨_, rfl⟩

variable [Sub K] [Div K] [NatCast K]

/-- The standard deviations of an observation, given each of the particles. -/
def stdDevsAt (env : Env K) (latestParticles : List K) : List K :=
  latestParticles.map fun x => env.exp (x / ((2 : ℕ) : K))

theorem propose_eq {t : ℕ} {particles : Particles K} (h : Shaped y n t particles)
    (ht : t ≤ y.length) : propose env model n seed (t + 1) particles =
      IndependentVectorNormal.constant env.nanMin 0 (env.exp model.sigma) n >>= fun _ =>
        (IndependentVectorNormal.new env.nanMin (.replicate n 0)
          (stdDevsAt env (moved env model n seed t particles))).map
            fun dist => (moved env model n seed t particles, dist) := by
  unfold propose
  rw [getLatestParticles_ok h ht, Except.ok_bind]
  rcases hc : IndependentVectorNormal.constant env.nanMin 0 (env.exp model.sigma) n with e | noise
  · rfl
  · simp only [Except.ok_bind, (constant_eq_ok hc).2.2.2, if_pos h.small]
    rfl

theorem propose_eq_ok {t : ℕ} {particles : Particles K} (h : Shaped y n t particles)
    (ht : t ≤ y.length) {latestParticles : List K} {dist : IndependentVectorNormal K}
    (hp : propose env model n seed (t + 1) particles = .ok (latestParticles, dist)) :
    latestParticles = moved env model n seed t particles ∧ dist.means.length = n ∧
      ¬ Refused env (stdDevsAt env (moved env model n seed t particles)) := by
  rw [propose_eq h ht] at hp
  obtain ⟨noise, -, hp⟩ := Except.bind_eq_ok.mp hp
  rcases hnew : IndependentVectorNormal.new env.nanMin (.replicate n 0)
      (stdDevsAt env (moved env model n seed t particles)) with e | dist'
  · simp [hnew] at hp
  · obtain ⟨rfl, rfl⟩ : moved env model n seed t particles = latestParticles ∧ dist' = dist := by
      simpa [hnew] using hp
    obtain ⟨hmeans, hs⟩ := new_eq_ok hnew
    exact ⟨rfl, by rw [hmeans, List.length_replicate], hs⟩

/-- Standard deviations that are not refused make a proposal. -/
theorem propose_ok (hn : n ≠ 0) (hs : ¬ Refused env (.replicate n (env.exp model.sigma))) {t : ℕ}
    {particles : Particles K} (h : Shaped y n t particles) (ht : t ≤ y.length)
    (hmoved : ¬ Refused env (stdDevsAt env (moved env model n seed t particles))) :
    ∃ dist, propose env model n seed (t + 1) particles =
      .ok (moved env model n seed t particles, dist) := by
  obtain ⟨noise, hc⟩ := constant_ok 0 hn hs
  have hstd : (List.replicate n (0 : K)).length =
      (stdDevsAt env (moved env model n seed t particles)).length := by
    rw [List.length_replicate, stdDevsAt, List.length_map, length_moved env model seed h]
  obtain ⟨dist, hnew⟩ := new_ok hstd (fun hnil => hn (by simpa [hnil] using hstd)) hmoved
  exact ⟨dist, by rw [propose_eq h ht, hc, Except.ok_bind, hnew, Except.map_ok']⟩

theorem not_refused_moved (seed : UInt32) (hexp : ∀ x, 0 < env.exp x) (hn : n ≠ 0) {t : ℕ}
    {particles : Particles K} (h : Shaped y n t particles) :
    ¬ Refused env (stdDevsAt env (moved env model n seed t particles)) := by
  refine not_refused (fun hnil => hn ?_) fun stdDev hmem => ?_
  · have hlen := length_moved env model seed h
    rwa [List.map_eq_nil_iff.mp hnil, List.length_nil, eq_comm] at hlen
  · obtain ⟨x, -, rfl⟩ := List.mem_map.mp hmem
    exact hexp _

/-- What an iteration does with a proposal: the row is filled in, and the columns it leaves are
columns that then stand in the table. -/
theorem filterStep_of_propose {t : ℕ} {particles : Particles K} (h : Shaped y n t particles)
    (ht : t < y.length) {latestParticles : List K} {dist : IndependentVectorNormal K}
    (hp : propose env model n seed (t + 1) particles = .ok (latestParticles, dist)) :
    ∃ particles', filterStep env model y n seed (t + 1) particles = .ok particles' ∧
      Shaped y n (t + 1) particles' ∧ ∀ column ∈ particles'.columns,
        column ∈ List.zipWith (fun column x => column.set (t + 1) x) particles.columns
          (moved env model n seed t particles) := by
  obtain ⟨rfl, hmeans, -⟩ := propose_eq_ok h ht.le hp
  obtain ⟨particles₁, ha, h₁, hcols⟩ := appendParticles_ok h ht (length_moved env model seed h)
  simp only [filterStep, hp, Except.ok_bind, observation_ok ht, ha, uncaught]
  split_ifs with hsum
  · have hlen : ((env.pdfs (t + 1) dist y[t]).map
        (· / (env.pdfs (t + 1) dist y[t]).sum)).length = n := by
      rw [List.length_map, env.pdfs_length, hmeans]
    obtain ⟨particles₂, hr, h₂, hmem⟩ :=
      resampleParticles_ok env seed h₁ (t + 1) hlen
    rw [normalise, if_neg fun hzero => FloatOrder.not_le_of_lt hsum hzero.1, Except.ok_bind, hr]
    exact ⟨particles₂, rfl, h₂, fun column hcolumn => hcols ▸ hmem column hcolumn⟩
  · exact ⟨particles₁, rfl, h₁, fun column hcolumn => hcols ▸ hcolumn⟩

/-! ## The run -/

theorem filterStep_follows (hexp : ∀ x, 0 < env.exp x) (hn : n ≠ 0) {t : ℕ}
    {particles : Particles K} (h : Shaped y n t particles)
    (hpaths : ∀ column ∈ particles.columns, Follows env model n seed t column)
    (ht : t < y.length) :
    ∃ particles', filterStep env model y n seed (t + 1) particles = .ok particles' ∧
      Shaped y n (t + 1) particles' ∧
      ∀ column ∈ particles'.columns, Follows env model n seed (t + 1) column := by
  obtain ⟨dist, hp⟩ := propose_ok hn (not_refused_replicate (hexp model.sigma) hn) h ht.le
    (not_refused_moved seed hexp hn h)
  obtain ⟨particles', hr, h', hmem⟩ := filterStep_of_propose h ht hp
  refine ⟨particles', hr, h', fun column hcolumn => ?_⟩
  obtain ⟨i, hi, rfl⟩ := List.mem_iff_getElem.mp (hmem column hcolumn)
  have hi' : i < particles.columns.length := by
    rw [List.length_zipWith] at hi
    exact (Nat.lt_min.mp hi).1
  have hcol := List.getElem_mem hi'
  have hlen : particles.columns[i].length = y.length + 1 :=
    (particles.column_length _ hcol).trans h.length
  rw [List.getElem_zipWith]
  simp only [moved, List.getElem_zipWith, List.getElem_map]
  refine (hpaths _ hcol).set (by omega) ?_ (List.getElem_mem _)
  have hrow : t < particles.columns[i].length := by omega
  simp [List.getD_eq_getElem?_getD, hrow]

theorem filterAfter_follows (model : StochasticVolatilityModel K) (seed : UInt32)
    (hexp : ∀ x, 0 < env.exp x) (hn : n ≠ 0) (hsmall : n < 2 ^ 31) : ∀ {t : ℕ}, t ≤ y.length →
    ∃ particles, filterAfter env model y n seed t = .ok particles ∧ Shaped y n t particles ∧
      ∀ column ∈ particles.columns, Follows env model n seed t column
  | 0, _ => by
    obtain ⟨particles, hs⟩ := start_ok model y seed hn hsmall
      (not_refused_replicate (hexp model.sigma) hn)
    obtain ⟨-, -, h, hcolumns⟩ := start_eq_ok hs
    refine ⟨particles, hs, h, fun column hcolumn => ?_⟩
    rw [hcolumns] at hcolumn
    obtain ⟨x, hx, rfl⟩ := List.mem_map.mp hcolumn
    exact ⟨⟨x, hx, rfl⟩, by simp⟩
  | t + 1, ht => by
    obtain ⟨particles, hr, h, hpaths⟩ :=
      filterAfter_follows model seed hexp hn hsmall (Nat.le_of_succ_le ht)
    rw [filterAfter, hr, Except.ok_bind]
    exact filterStep_follows hexp hn h hpaths ht

/-- Nothing moves: every draw is zero, every particle as likely as any other, and the first one is
always taken. -/
def stillEnv : Env ℚ where
  exp _ := 1
  tanh _ := 0
  normal _ _ n := .replicate n 0
  normal_length _ _ _ := List.length_replicate
  discrete _ _ _ col := ⟨0, col.pos⟩
  nanMin _ := 0
  pdfs _ dist _ := dist.means.map fun _ => 1
  pdfs_length _ _ _ := List.length_map _
  pdfs_nonneg _ _ _ _ l hl := by
    obtain ⟨-, -, rfl⟩ := List.mem_map.mp hl
    decide
  logLikelihoods _ dist _ := dist.means.map fun _ => 0
  logLikelihoods_length _ _ _ := List.length_map _

end StochasticVolatility

end SideProjects
