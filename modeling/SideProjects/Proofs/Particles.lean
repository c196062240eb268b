import Mathlib.Data.List.TakeWhile
import SideProjects.Proofs.StochasticVolatility

/-!
# Runs of the particle table

A row is written once, and after that resamplings only move its entries from column to column, and
transformations change all of them in the same way. So what is at `(t, c)` is found by following the
draws made since back from column `c` (`ancestor`), and by applying the transformations since to what
was written there (`Recorded`). That is so as long as every call is `Sure`: a transformation that throws
leaves the entries before it changed, and a resampling of too many columns is undefined. The size of
the table and its current row do not depend on that (`Sized`).
-/

namespace SideProjects

namespace StochasticVolatility

namespace Particles

variable {K : Type*}

/-! ## What a run has done -/

namespace Call

def isAppend : Call K → Bool
  | .append _ => true
  | _ => false

def isTransform : Call K → Bool
  | .transform _ => true
  | _ => false

/-- What becomes of an entry. -/
def image : Call K → K → Option K
  | .transform func, x => func x
  | _, x => some x

end Call

/-- The calls of a run that did not throw. -/
def succeeded (calls : List (Call K)) (answers : List (Except Fault Unit)) : List (Call K) :=
  ((calls.zip answers).filter fun r => r.2.toBool).map Prod.fst

def appends (done : List (Call K)) : ℕ := done.countP Call.isAppend

/-- The vector written at time `t`, and the calls since. -/
def written (initial : List K) : List (Call K) → ℕ → Option (List K × List (Call K))
  | done, 0 => some (initial, done)
  | [], _ + 1 => none
  | .append newParticles :: done, t + 1 => written newParticles done t
  | _ :: done, t + 1 => written initial done (t + 1)

/-- The transformations of `since`, in order. -/
def applied (since : List (Call K)) (x : K) : Option K := since.foldlM (fun x call => call.image x) x

/-- The entry at time `t` of column `c`. -/
def entry (particles : Particles K) (t c : ℕ) : Option K :=
  particles.columns[c]?.bind (·[t]?)

/-- The entries, column by column, before the first one at which `func` throws. -/
def untilThrow (func : K → Option K) (particles : Particles K) : List K :=
  particles.columns.flatten.takeWhile fun x => (func x).isSome

/-- A call that is defined, and that leaves the object as it was if it throws. -/
def Sure (particles : Particles K) : Call K → Prop
  | .append _ => True
  | .resample _ weights _ =>
    weights.length = particles.particleCount → particles.particleCount < 2 ^ 31
  | .transform func => (∃ x ∈ particles.columns.flatten, func x = none) →
    ∀ x ∈ particles.untilThrow func, func x = some x

/-- The size of the table of a run from `initial`, of which `done` succeeded, and its current row. -/
structure Sized (particleLength : ℕ) (initial : List K) (done : List (Call K))
    (particles : Particles K) : Prop where
  count : particles.particleCount = initial.length
  length : particles.particleLength = particleLength
  row : particles.currentRow = appends done
  fits : appends done < particleLength

/-! ## Rows -/

@[simp]
theorem appends_nil : appends ([] : List (Call K)) = 0 := rfl

@[simp]
theorem appends_append (newParticles : List K) (done : List (Call K)) :
    appends (.append newParticles :: done) = appends done + 1 := List.countP_cons_of_pos rfl

@[simp]
theorem appends_resample (t : ℕ) (weights : List K) (seed : UInt32) (done : List (Call K)) :
    appends (.resample t weights seed :: done) = appends done :=
  List.countP_cons_of_neg Bool.false_ne_true

@[simp]
theorem appends_transform (func : K → Option K) (done : List (Call K)) :
    appends (.transform func :: done) = appends done := List.countP_cons_of_neg Bool.false_ne_true

theorem appends_concat (done : List (Call K)) (call : Call K) :
    appends (done ++ [call]) = appends done + if call.isAppend then 1 else 0 := by
  simp [appends, List.countP_cons]

/-- A row that has been written stays written, with one more call since. -/
theorem written_concat (call : Call K) : ∀ {done : List (Call K)} {initial : List K} {t : ℕ},
    t ≤ appends done →
    written initial (done ++ [call]) t = (written initial done t).map fun r => (r.1, r.2 ++ [call])
  | done, initial, 0, _ => by cases done <;> rfl
  | [], _, t + 1, h => by simp at h
  | .append newParticles :: done, _, t + 1, h => by
    simp only [List.cons_append, written]
    exact written_concat call (by simpa using h)
  | .resample r weights seed :: done, _, t + 1, h => by
    simp only [List.cons_append, written]
    exact written_concat call (by simpa using h)
  | .transform func :: done, _, t + 1, h => by
    simp only [List.cons_append, written]
    exact written_concat call (by simpa using h)

/-- An append writes the next row. -/
theorem written_last (newParticles : List K) : ∀ (done : List (Call K)) (initial : List K),
    written initial (done ++ [.append newParticles]) (appends done + 1) = some (newParticles, [])
  | [], _ => rfl
  | .append _ :: done, _ => by simpa [written] using written_last newParticles done _
  | .resample _ _ _ :: done, initial => by simpa [written] using written_last newParticles done initial
  | .transform _ :: done, initial => by simpa [written] using written_last newParticles done initial

theorem applied_concat (since : List (Call K)) (call : Call K) (x : K) :
    applied (since ++ [call]) x = (applied since x).bind call.image := by
  simp [applied]

/-! ## Transformations -/

section Transform

variable {func : K → Option K}

theorem transformEntry_of_isSome {x : K} (h : (func x).isSome) :
    (transformEntry func x).1 = .ok () ∧ func x = some (transformEntry func x).2 := by
  obtain ⟨z, hz⟩ := Option.isSome_iff_exists.mp h
  simp [transformEntry, hz]

theorem transformEntry_of_none {x : K} (h : func x = none) :
    transformEntry func x = (.error .thrown, x) := by
  simp [transformEntry, h]

theorem isSome_of_transformEntry {x : K} (h : (transformEntry func x).1 = .ok ()) :
    (func x).isSome := by
  by_contra hnone
  rw [Option.not_isSome_iff_eq_none] at hnone
  rw [transformEntry_of_none hnone] at h
  cases h

/-- A transformation that does not throw replaces every entry. -/
theorem applyTransformation_eq_ok {particles particles' : Particles K}
    (h : particles.applyTransformation func = (.ok (), particles')) :
    particles'.particleCount = particles.particleCount ∧
      particles'.particleLength = particles.particleLength ∧
      particles'.currentRow = particles.currentRow ∧
      particles'.columns = particles.columns.map (·.map fun x => (transformEntry func x).2) ∧
      ∀ column ∈ particles.columns, ∀ x ∈ column, func x = some (transformEntry func x).2 := by
  have hall := updateEach_eq_ok (congrArg Prod.fst h)
  have hentries : ∀ column ∈ particles.columns, ∀ x ∈ column, (transformEntry func x).1 = .ok () :=
    fun column hcolumn => updateEach_eq_ok (hall column hcolumn)
  obtain rfl : (particles.applyTransformation func).2 = particles' := congrArg Prod.snd h
  refine ⟨rfl, rfl, rfl, ?_, fun column hcolumn x hx =>
    (transformEntry_of_isSome (isSome_of_transformEntry (hentries column hcolumn x hx))).2⟩
  show (updateEach (updateEach (transformEntry func)) particles.columns).2 = _
  rw [updateEach_of_ok hall]
  refine List.map_congr_left fun column hcolumn => ?_
  rw [updateEach_of_ok (hentries column hcolumn)]

/-- Two tables of one size are the same if their entries are, one after the other. -/
theorem ext_of_flatten (particles' particles : Particles K)
    (hcount : particles'.particleCount = particles.particleCount)
    (hlength : particles'.particleLength = particles.particleLength)
    (hrow : particles'.currentRow = particles.currentRow) :
    particles' = particles ↔ particles'.columns.flatten = particles.columns.flatten := by
  have hlengths : ∀ p : Particles K,
      p.columns.map List.length = .replicate p.particleCount p.particleLength := by
    intro p
    refine List.eq_replicate_iff.mpr ⟨by rw [List.length_map, p.columns_length], fun n hn => ?_⟩
    obtain ⟨column, hcolumn, rfl⟩ := List.mem_map.mp hn
    exact p.column_length column hcolumn
  refine ⟨fun h => by rw [h], fun h => ?_⟩
  have hcolumns : particles'.columns = particles.columns :=
    List.eq_iff_flatten_eq.mpr ⟨h, by rw [hlengths, hlengths, hcount, hlength]⟩
  exact Particles.ext hcount hlength hrow hcolumns

/-- Where the function throws, the entries before that have been replaced. -/
theorem applyTransformation_of_none {particles : Particles K}
    (h : ∃ x ∈ particles.columns.flatten, func x = none) :
    (particles.applyTransformation func).1 = .error .thrown ∧
      ((particles.applyTransformation func).2 = particles ↔
        ∀ x ∈ particles.untilThrow func, func x = some x) := by
  have hsome : ∀ x ∈ particles.untilThrow func, (transformEntry func x).1 = .ok () ∧
      func x = some (transformEntry func x).2 :=
    fun x hx => transformEntry_of_isSome
      (List.mem_takeWhile_imp (p := fun x => (func x).isSome) hx)
  obtain ⟨x, after, hsplit, hnone⟩ : ∃ x after,
      particles.columns.flatten = particles.untilThrow func ++ x :: after ∧ func x = none := by
    have hne : particles.columns.flatten.dropWhile (fun x => (func x).isSome) ≠ [] := by
      rw [Ne, List.dropWhile_eq_nil_iff]
      intro hall
      obtain ⟨x, hx, hnone⟩ := h
      simpa [hnone] using hall x hx
    refine ⟨_, (particles.columns.flatten.dropWhile fun x => (func x).isSome).tail, ?_,
      by simpa using List.head_dropWhile_not _ hne⟩
    rw [List.cons_head_tail, untilThrow, List.takeWhile_append_dropWhile]
  have hflat := updateEach_flatten (f := transformEntry func) particles.columns
  rw [hsplit, updateEach_of_error (fun x hx => (hsome x hx).1)
    (congrArg Prod.fst (transformEntry_of_none hnone)), transformEntry_of_none hnone] at hflat
  refine ⟨(congrArg Prod.fst hflat).symm, ?_⟩
  have hentries : (particles.applyTransformation func).2.columns.flatten =
      (particles.untilThrow func).map (fun x => (transformEntry func x).2) ++ x :: after :=
    (congrArg Prod.snd hflat).symm
  refine (ext_of_flatten (particles.applyTransformation func).2 particles rfl rfl rfl).trans ?_
  rw [hentries, hsplit, List.append_cancel_right_eq]
  nth_rewrite 2 [← List.map_id (particles.untilThrow func)]
  rw [List.map_inj_left]
  refine forall₂_congr fun x hx => ?_
  rw [(hsome x hx).2, Option.some_inj, id]

theorem applyTransformation_of_some {particles : Particles K}
    (h : ∀ x ∈ particles.columns.flatten, func x ≠ none) :
    (particles.applyTransformation func).1 = .ok () := by
  have hflat := updateEach_flatten (f := transformEntry func) particles.columns
  rw [updateEach_of_ok fun x hx => (transformEntry_of_isSome (Option.isSome_iff_ne_none.mpr (h x hx))).1]
    at hflat
  exact (congrArg Prod.fst hflat).symm

end Transform

/-! ## Entries -/

theorem entry_isSome (particles : Particles K) {t c : ℕ} (ht : t < particles.particleLength)
    (hc : c < particles.particleCount) : ∃ x, particles.entry t c = some x := by
  have hc' : c < particles.columns.length := by rwa [particles.columns_length]
  have ht' : t < particles.columns[c].length := by
    rwa [particles.column_length _ (List.getElem_mem hc')]
  exact ⟨particles.columns[c][t], by
    rw [entry, List.getElem?_eq_getElem hc', Option.bind_some, List.getElem?_eq_getElem ht']⟩

theorem entry_append {particles particles' : Particles K} {newParticles : List K}
    (h : particles.appendParticles newParticles = (.ok (), particles')) (t : ℕ) {c : ℕ}
    (hc : c < particles.particleCount) :
    particles'.entry t c =
      if t = particles.currentRow + 1 then newParticles[c]? else particles.entry t c := by
  obtain ⟨hcount, hroom, -, -, -, hcolumns⟩ := appendParticles_eq_ok h
  have hcol : c < particles.columns.length := by rwa [particles.columns_length]
  have hnew : c < newParticles.length := by rwa [hcount]
  have hlen := particles.column_length _ (List.getElem_mem hcol)
  unfold entry
  rw [hcolumns, List.getElem?_zipWith, List.getElem?_eq_getElem hcol, List.getElem?_eq_getElem hnew]
  simp only [Option.bind_some, List.getElem?_set]
  split_ifs with h₁ h₂ h₂ <;> first | rfl | omega

theorem entry_transform {particles particles' : Particles K} {func : K → Option K}
    (h : particles.applyTransformation func = (.ok (), particles')) (t c : ℕ) :
    particles'.entry t c = (particles.entry t c).bind func := by
  obtain ⟨-, -, -, hcolumns, hentries⟩ := applyTransformation_eq_ok h
  rw [entry, entry, hcolumns, List.getElem?_map]
  rcases hc : particles.columns[c]? with _ | column
  · rfl
  · simp only [Option.map_some, Option.bind_some, List.getElem?_map]
    rcases ht : column[t]? with _ | x
    · rfl
    · exact (hentries column (List.mem_of_getElem? hc) x (List.mem_of_getElem? ht)).symm

/-! ## One call -/

variable [Zero K] [LE K] [LT K] {env : Env K}

/-- The column that `c` is copied from. -/
def Call.parent (env : Env K) : Call K → ℕ → ℕ
  | .resample t weights seed, c =>
    if h : c < weights.length then env.discrete t weights seed ⟨c, h⟩ else c
  | _, c => c

/-- The composition of the draws of `since`, the first one outermost. -/
def ancestor (env : Env K) (since : List (Call K)) (c : ℕ) : ℕ := since.foldr (Call.parent env) c

theorem ancestor_concat (since : List (Call K)) (call : Call K) (c : ℕ) :
    ancestor env (since ++ [call]) c = ancestor env since (call.parent env c) := by
  simp [ancestor]

/-- What a call does to the size of the table and to its current row. -/
theorem attempt_shape (env : Env K) (particles : Particles K) (call : Call K) :
    (attempt env particles call).2.particleCount = particles.particleCount ∧
      (attempt env particles call).2.particleLength = particles.particleLength ∧
      (attempt env particles call).2.currentRow = particles.currentRow +
        (if call.isAppend ∧ (attempt env particles call).1 = .ok () then 1 else 0) ∧
      (particles.currentRow < particles.particleLength →
        (attempt env particles call).2.currentRow < particles.particleLength) := by
  cases call with
  | append newParticles =>
    rcases hr : particles.appendParticles newParticles with ⟨e | ⟨⟩, particles'⟩
    · have hsame := appendParticles_error (congrArg Prod.fst hr)
      rw [hr] at hsame
      cases hsame
      simp [attempt, hr]
    · obtain ⟨-, hroom, hcount, hlength, hrow, -⟩ := appendParticles_eq_ok hr
      simp [attempt, hr, hcount, hlength, hrow, hroom, Call.isAppend]
  | resample r weights seed =>
    simp only [attempt, resampleParticles]
    split_ifs <;> simp_all [Call.isAppend]
  | transform func => simp [attempt, applyTransformation, Call.isAppend]

/-- What a call that does not throw does to the rows that have been written. -/
theorem attempt_entry {particles particles' : Particles K} {call : Call K}
    (h : attempt env particles call = (.ok (), particles')) {t : ℕ} (ht : t ≤ particles.currentRow)
    {c : ℕ} (hc : c < particles.particleCount) : call.parent env c < particles.particleCount ∧
      particles'.entry t c = (particles.entry t (call.parent env c)).bind call.image := by
  cases call with
  | append newParticles =>
    refine ⟨hc, ?_⟩
    rw [entry_append h t hc, if_neg (by omega)]
    exact (Option.bind_fun_some _).symm
  | resample r weights seed =>
    obtain ⟨hweights, -, -, -, -, hcolumns⟩ := resampleParticles_eq_ok h
    have hc' : c < weights.length := hweights.symm ▸ hc
    have hparent : (Call.resample r weights seed).parent env c =
        (env.discrete r weights seed ⟨c, hc'⟩ : ℕ) := dif_pos hc'
    rw [hparent]
    refine ⟨hweights ▸ Fin.isLt _, ?_⟩
    rw [entry, hcolumns c hc', ← entry]
    exact (Option.bind_fun_some _).symm
  | transform func => exact ⟨hc, entry_transform h t c⟩

/-- A call is sure if and only if it is defined, and leaves the object as it was if it throws. -/
theorem sure_iff {particles : Particles K} (hlength : 1 ≤ particles.particleLength) (call : Call K) :
    Sure particles call ↔ (attempt env particles call).1 ≠ .error .undefinedBehaviour ∧
      ∀ e, (attempt env particles call).1 = .error e → (attempt env particles call).2 = particles := by
  cases call with
  | append newParticles =>
    refine iff_of_true trivial ⟨?_, fun e he => appendParticles_error he⟩
    show (particles.appendParticles newParticles).1 ≠ _
    unfold appendParticles
    by_cases hfull : particles.particleLength ≠ 0 ∧ particles.particleLength - 1 ≤ particles.currentRow
    · rw [if_pos hfull]
      simp
    · rw [if_neg hfull]
      by_cases hcount : newParticles.length ≠ particles.particleCount
      · rw [dif_pos hcount]
        simp
      · rw [dif_neg hcount, if_neg (by omega)]
        simp
  | resample r weights seed =>
    unfold attempt resampleParticles
    by_cases hweights : weights.length = particles.particleCount
    · by_cases hlarge : 2 ^ 31 ≤ particles.particleCount
      · simp only [dif_pos hweights, if_pos hlarge]
        exact iff_of_false (fun hsure => absurd (hsure hweights) hlarge.not_gt) fun h => h.1 rfl
      · simp only [dif_pos hweights, if_neg hlarge]
        exact iff_of_true (fun _ => Nat.not_le.mp hlarge) ⟨by simp, by simp⟩
    · simp only [dif_neg hweights]
      exact iff_of_true (fun h => absurd h hweights) ⟨by simp, fun _ _ => trivial⟩
  | transform func =>
    by_cases h : ∃ x ∈ particles.columns.flatten, func x = none
    · obtain ⟨hthrow, hsame⟩ := applyTransformation_of_none h
      simp only [attempt, hthrow, hsame, Sure, h, true_implies]
      exact ⟨fun hall => ⟨by simp, fun _ _ => hall⟩, fun hall => hall.2 _ rfl⟩
    · refine iff_of_true (fun hex => absurd hex h) ?_
      push Not at h
      simp only [attempt, applyTransformation_of_some h]
      exact ⟨by simp, by simp⟩

/-! ## Runs -/

omit [Zero K] [LE K] [LT K] in
theorem succeeded_cons (call : Call K) (calls : List (Call K)) (answer : Except Fault Unit)
    (answers : List (Except Fault Unit)) : succeeded (call :: calls) (answer :: answers) =
      (if answer = .ok () then [call] else []) ++ succeeded calls answers := by
  rcases answer with e | ⟨⟩ <;> simp [succeeded, Except.toBool]

/-- What is at `(t, c)` in the table of a run from `initial`, of which `done` succeeded. -/
structure Recorded (env : Env K) (particleLength : ℕ) (initial : List K) (done : List (Call K))
    (particles : Particles K) : Prop extends Sized particleLength initial done particles where
  entries : ∀ t ≤ appends done, ∃ v since, written initial done t = some (v, since) ∧
    v.length = initial.length ∧ ∀ c < initial.length, ∃ x z, v[ancestor env since c]? = some x ∧
      applied since x = some z ∧ particles.entry t c = some z

section Run

variable {particleLength : ℕ} {initial : List K} {done : List (Call K)} {particles : Particles K}

theorem Sized.attempt (env : Env K) (h : Sized particleLength initial done particles) (call : Call K) :
    Sized particleLength initial
      (done ++ if (attempt env particles call).1 = .ok () then [call] else [])
      (attempt env particles call).2 := by
  obtain ⟨hcount, hlength, hrow, hfits⟩ := attempt_shape env particles call
  have happends : (Particles.attempt env particles call).2.currentRow =
      appends (done ++ if (Particles.attempt env particles call).1 = .ok () then [call] else []) := by
    rw [hrow, h.row]
    by_cases hok : (Particles.attempt env particles call).1 = .ok ()
    · simp [hok, appends_concat]
    · simp [hok]
  refine ⟨hcount.trans h.count, hlength.trans h.length, happends, ?_⟩
  rw [← happends, ← h.length]
  exact hfits (by rw [h.row, h.length]; exact h.fits)

/-- A call that does not throw keeps the record of the rows that had been written. -/
theorem Recorded.old {particles' : Particles K} (h : Recorded env particleLength initial done particles)
    {call : Call K} (hcall : attempt env particles call = (.ok (), particles')) {t : ℕ}
    (ht : t ≤ appends done) : ∃ v since, written initial (done ++ [call]) t = some (v, since) ∧
      v.length = initial.length ∧ ∀ c < initial.length, ∃ x z, v[ancestor env since c]? = some x ∧
        applied since x = some z ∧ particles'.entry t c = some z := by
  obtain ⟨v, since, hwritten, hv, hentries⟩ := h.entries t ht
  refine ⟨v, since ++ [call], by rw [written_concat call ht, hwritten]; rfl, hv, fun c hc => ?_⟩
  obtain ⟨hparent, hentry⟩ := attempt_entry hcall (h.row ▸ ht) (h.count.symm ▸ hc)
  obtain ⟨x, z, hx, hz, hat⟩ := hentries _ (h.count ▸ hparent)
  -- the entry is still there, so the call has not thrown at it
  obtain ⟨hcount, hlength, -⟩ := attempt_shape env particles call
  rw [hcall] at hcount hlength
  have hrow : t < particles'.particleLength := by
    rw [hlength, h.length]
    exact ht.trans_lt h.fits
  obtain ⟨z', hz'⟩ := entry_isSome particles' hrow (by rwa [hcount, h.count] : c < _)
  rw [hat, Option.bind_some] at hentry
  refine ⟨x, z', by rw [ancestor_concat, hx], ?_, hz'⟩
  rw [applied_concat, hz, Option.bind_some, ← hentry, hz']

theorem Recorded.attempt (h : Recorded env particleLength initial done particles) {call : Call K}
    (hsure : Sure particles call) : Recorded env particleLength initial
      (done ++ if (attempt env particles call).1 = .ok () then [call] else [])
      (attempt env particles call).2 := by
  have hsized := h.toSized.attempt env call
  rcases hcall : Particles.attempt env particles call with ⟨e | ⟨⟩, particles'⟩
  · have hsame := ((sure_iff (by have := h.fits; have := h.length; omega) call).mp hsure).2 e
      (congrArg Prod.fst hcall)
    rw [hcall] at hsame
    cases hsame
    simpa using h
  · rw [hcall] at hsized
    simp only [if_true] at hsized ⊢
    refine ⟨hsized, fun t ht => ?_⟩
    rcases Nat.lt_or_ge (appends done) t with hlast | hle
    · -- the row that the call has written
      cases call with
      | append newParticles =>
        have ht' : t ≤ appends done + 1 := by simpa [appends_concat, Call.isAppend] using ht
        obtain rfl : t = appends done + 1 := by omega
        obtain ⟨hnew, -⟩ := appendParticles_eq_ok hcall
        refine ⟨newParticles, [], written_last newParticles done initial, hnew.trans h.count,
          fun c hc => ?_⟩
        have hc' : c < newParticles.length := by rwa [hnew, h.count]
        refine ⟨newParticles[c], newParticles[c], List.getElem?_eq_getElem hc', rfl, ?_⟩
        rw [entry_append hcall _ (h.count.symm ▸ hc), if_pos (by rw [h.row])]
        exact List.getElem?_eq_getElem hc'
      | resample r weights seed =>
        have ht' : t ≤ appends done := by simpa [appends_concat, Call.isAppend] using ht
        omega
      | transform func =>
        have ht' : t ≤ appends done := by simpa [appends_concat, Call.isAppend] using ht
        omega
    · exact h.old hcall hle

end Run

theorem sized_feed (env : Env K) {particleLength : ℕ} {initial : List K} :
    ∀ (calls : List (Call K)) {done : List (Call K)} {particles : Particles K},
    Sized particleLength initial done particles →
    Sized particleLength initial (done ++ succeeded calls (feed (attempt env) particles calls).1)
      (feed (attempt env) particles calls).2
  | [], done, particles, h => by simpa [succeeded, feed] using h
  | call :: calls, done, particles, h => by
    rw [feed, succeeded_cons, ← List.append_assoc]
    exact sized_feed env calls (h.attempt env call)

theorem recorded_feed {particleLength : ℕ} {initial : List K} :
    ∀ (calls : List (Call K)) {done : List (Call K)} {particles : Particles K},
    Recorded env particleLength initial done particles →
    Along (fun particles call => (attempt env particles call).2) Sure particles calls →
    Recorded env particleLength initial
      (done ++ succeeded calls (feed (attempt env) particles calls).1)
      (feed (attempt env) particles calls).2
  | [], done, particles, h, _ => by simpa [succeeded, feed] using h
  | call :: calls, done, particles, h, ⟨hcall, hcalls⟩ => by
    rw [feed, succeeded_cons, ← List.append_assoc]
    exact recorded_feed calls (h.attempt hcall) hcalls

theorem recorded_ofVector (env : Env K) {particleLength : ℕ} {initial : List K}
    {particles : Particles K} (h : ofVector initial particleLength = .ok particles) :
    Recorded env particleLength initial [] particles := by
  unfold ofVector at h
  split_ifs at h with hsize
  cases h
  refine ⟨⟨rfl, rfl, rfl, Nat.pos_of_ne_zero hsize.1⟩, fun t ht => ?_⟩
  obtain rfl : t = 0 := Nat.le_zero.mp ht
  refine ⟨initial, [], rfl, rfl, fun c hc =>
    ⟨initial[c], initial[c], List.getElem?_eq_getElem hc, rfl, ?_⟩⟩
  simp [entry, hc]

/-- The table over a whole run of sure calls, whatever is drawn. A call that is not sure is undefined,
or leaves the table changed when it throws. -/
theorem run_table (env : Env K) (initial : List K) (hcount : initial.length < 2 ^ 32)
    {particleLength : ℕ} (hlength : 1 ≤ particleLength) (calls : List (Call K)) :
    ∃ particles₀, ofVector initial particleLength = .ok particles₀ ∧
      (Along (fun particles call => (attempt env particles call).2) Sure particles₀ calls →
        let run := feed (attempt env) particles₀ calls
        let particles := run.2
        let done := succeeded calls run.1
        let k := appends done
        particles.particleLength = particleLength ∧ particles.particleCount = initial.length ∧
          particles.columns.length = initial.length ∧
          (∀ column ∈ particles.columns, column.length = particleLength) ∧
          particles.currentRow = k ∧
          (∀ newParticles, (particles.appendParticles newParticles).1 = .ok () ↔
            newParticles.length = initial.length ∧ k < particleLength - 1) ∧
          (∀ call, Sure particles call ↔
            (attempt env particles call).1 ≠ .error .undefinedBehaviour ∧
              ∀ e, (attempt env particles call).1 = .error e →
                (attempt env particles call).2 = particles) ∧
          (∃ row, particles.getLatestParticles = .ok row ∧ row.length = initial.length ∧
            ∀ c < initial.length, row[c]? = particles.entry k c) ∧
          ∀ t ≤ k, ∃ v since, written initial done t = some (v, since) ∧
            v.length = initial.length ∧ ∀ c < initial.length, ∃ x z,
              v[ancestor env since c]? = some x ∧ applied since x = some z ∧
                particles.entry t c = some z) := by
  have hnew : ∃ particles₀, ofVector initial particleLength = .ok particles₀ := by
    unfold ofVector
    rw [dif_pos ⟨by omega, hcount⟩]
    exact ⟨_, rfl⟩
  obtain ⟨particles₀, hnew⟩ := hnew
  refine ⟨particles₀, hnew, fun hsure => ?_⟩
  intro run particles done k
  have h : Recorded env particleLength initial done particles :=
    recorded_feed calls (recorded_ofVector env hnew) hsure
  have hcols : particles.columns.length = initial.length := particles.columns_length.trans h.count
  have hcol : ∀ column ∈ particles.columns, column.length = particleLength :=
    fun column hcolumn => (particles.column_length column hcolumn).trans h.length
  refine ⟨h.length, h.count, hcols, hcol, h.row, fun newParticles => ?_,
    sure_iff (h.length.symm ▸ hlength), ?_, h.entries⟩
  · rw [appendParticles_iff (h.length.symm ▸ hlength), h.count, h.row, h.length]
  · have hrow : particles.getLatestParticles = .ok (particles.columns.map (·.getD k 0)) := by
      unfold getLatestParticles
      rw [h.row, h.length, if_pos h.fits]
    refine ⟨_, hrow, by rw [List.length_map, hcols], fun c hc => ?_⟩
    have hc' : c < particles.columns.length := hcols.symm ▸ hc
    have hk : k < particles.columns[c].length := by
      rw [hcol _ (List.getElem_mem hc')]
      exact h.fits
    rw [entry, List.getElem?_map, List.getElem?_eq_getElem hc']
    simp [List.getD_eq_getElem?_getD, hk]

/-- Two particles are moved once and resampled, a second row does not fit, and all is doubled. -/
theorem run_table_full :
    let calls : List (Call ℚ) :=
      [.append [3, 4], .resample 0 [1, 1] 7, .append [5, 6], .transform fun x => some (x * 2)]
    ∃ particles₀, ofVector [1, 2] 2 = .ok particles₀ ∧
      (feed (attempt stillEnv) particles₀ calls).2.columns = [[2, 6], [2, 6]] ∧
      (feed (attempt stillEnv) particles₀ calls).2.currentRow =
        appends (succeeded calls (feed (attempt stillEnv) particles₀ calls).1) := by
  intro calls
  obtain ⟨particles₀, hnew, hrun⟩ :=
    run_table stillEnv [1, 2] (by decide) (by decide : 1 ≤ 2) calls
  cases hnew
  obtain ⟨-, -, -, -, hrow, -⟩ := hrun ⟨trivial, fun _ => by decide +kernel, trivial,
    fun h => by simp at h, trivial⟩
  exact ⟨_, rfl, by decide +kernel, hrow⟩

/-- A function that throws at `2`. -/
def tenfold (x : ℚ) : Option ℚ := if x = 2 then none else some (x * 10)

/-- It throws at the second entry, and by then has changed the first one. -/
theorem transform_throws : ∃ particles₀ : Particles ℚ, ofVector [1, 2] 1 = .ok particles₀ ∧
    (attempt stillEnv particles₀ (.transform tenfold)).1 = .error .thrown ∧
      (attempt stillEnv particles₀ (.transform tenfold)).2.columns = [[10], [2]] ∧
      (attempt stillEnv particles₀ (.transform tenfold)).2 ≠ particles₀ :=
  ⟨_, rfl, by decide +kernel, by decide +kernel, by decide +kernel⟩

/-! ## Without the first row -/

/-- `q` is `p` without its first row, and as far along. -/
structure Without (p q : Particles K) : Prop where
  count : q.particleCount = p.particleCount
  length : q.particleLength + 1 = p.particleLength
  row : q.currentRow + 1 = p.currentRow
  columns : q.columns = p.columns.map (·.drop 1)

omit [Zero K] [LE K] [LT K] in
theorem Without.append {p q : Particles K} (h : Without p q) (hlength : 1 ≤ q.particleLength)
    (newParticles : List K) :
    (q.appendParticles newParticles).1 = (p.appendParticles newParticles).1 ∧
      Without (p.appendParticles newParticles).2 (q.appendParticles newParticles).2 := by
  have hsame := h
  obtain ⟨hcount, hlen, hrow, hcolumns⟩ := h
  unfold appendParticles
  by_cases hfull : p.particleLength - 1 ≤ p.currentRow
  · have hp : p.particleLength ≠ 0 ∧ p.particleLength - 1 ≤ p.currentRow := ⟨by omega, hfull⟩
    have hq : q.particleLength ≠ 0 ∧ q.particleLength - 1 ≤ q.currentRow := by omega
    rw [if_pos hp, if_pos hq]
    exact ⟨rfl, hsame⟩
  rw [if_neg (by omega), if_neg (by omega)]
  by_cases hnew : newParticles.length = p.particleCount
  · rw [dif_neg (not_not.mpr (hnew.trans hcount.symm)), dif_neg (not_not.mpr hnew), if_neg (by omega),
      if_neg (by omega)]
    refine ⟨rfl, hcount, hlen, congrArg (· + 1) hrow, ?_⟩
    dsimp only
    rw [hcolumns, ← hrow, List.zipWith_map_left, List.map_zipWith]
    simp [List.drop_set]
  · rw [dif_pos (hcount ▸ hnew), dif_pos hnew]
    exact ⟨rfl, hsame⟩

theorem Without.resample (env : Env K) {p q : Particles K} (h : Without p q) (t : ℕ)
    (weights : List K) (seed : UInt32) :
    (q.resampleParticles env t weights seed).1 = (p.resampleParticles env t weights seed).1 ∧
      Without (p.resampleParticles env t weights seed).2
        (q.resampleParticles env t weights seed).2 := by
  have hcount := h.count
  unfold resampleParticles
  by_cases hweights : weights.length = p.particleCount
  · rw [dif_pos (hweights.trans hcount.symm), dif_pos hweights]
    by_cases hlarge : 2 ^ 31 ≤ p.particleCount
    · rw [if_pos (hcount.symm ▸ hlarge), if_pos hlarge]
      exact ⟨rfl, h⟩
    · rw [if_neg (hcount.symm ▸ hlarge), if_neg hlarge]
      refine ⟨rfl, hcount, h.length, h.row, ?_⟩
      simp [h.columns]
  · rw [dif_neg (hcount ▸ hweights), dif_neg hweights]
    exact ⟨rfl, h⟩

/-- A call that is no transformation does the same with and without the row. -/
theorem Without.attempt (env : Env K) {p q : Particles K} (h : Without p q)
    (hlength : 1 ≤ q.particleLength) {call : Call K} (hcall : call.isTransform = false) :
    (attempt env q call).1 = (attempt env p call).1 ∧
      Without (attempt env p call).2 (attempt env q call).2 := by
  cases call with
  | append newParticles => exact h.append hlength newParticles
  | resample t weights seed => exact h.resample env t weights seed
  | transform func => cases hcall

theorem Without.run (env : Env K) : ∀ (calls : List (Call K)) {p q : Particles K}, Without p q →
    1 ≤ q.particleLength → (∀ call ∈ calls, call.isTransform = false) →
    (feed (Particles.attempt env) q calls).1 = (feed (Particles.attempt env) p calls).1 ∧
      Without (feed (Particles.attempt env) p calls).2 (feed (Particles.attempt env) q calls).2
  | [], _, _, h, _, _ => ⟨rfl, h⟩
  | call :: calls, p, q, h, hlength, hcalls => by
    obtain ⟨hcall, hcalls⟩ := List.forall_mem_cons.mp hcalls
    obtain ⟨hanswer, h'⟩ := h.attempt env hlength hcall
    obtain ⟨hanswers, hend⟩ :=
      Without.run env calls h' ((attempt_shape env q call).2.1.symm ▸ hlength) hcalls
    simp only [feed, hanswer, hanswers]
    exact ⟨trivial, hend⟩

/-- Rows of the right length are accepted as long as there is room for them. -/
theorem feed_appends {newParticles : List K} : ∀ (m : ℕ) {particles : Particles K},
    newParticles.length = particles.particleCount →
    particles.currentRow + m < particles.particleLength →
    (feed (attempt env) particles (.replicate m (.append newParticles))).1 = .replicate m (.ok ())
  | 0, _, _, _ => rfl
  | m + 1, particles, hnew, hroom => by
    have hok : (attempt env particles (.append newParticles)).1 = .ok () :=
      (appendParticles_iff (by omega) newParticles).mpr ⟨hnew, by omega⟩
    obtain ⟨hcount, hlength, hrow, -⟩ := attempt_shape env particles (.append newParticles)
    have hrow' : (attempt env particles (.append newParticles)).2.currentRow =
        particles.currentRow + 1 := by
      rw [hrow, if_pos ⟨rfl, hok⟩]
    rw [List.replicate_succ, feed, hok, feed_appends m (hnew.trans hcount.symm) (by omega)]
    rfl

omit [Zero K] [LE K] [LT K] in
theorem appends_replicate (done : List (Call K)) (m : ℕ) (newParticles : List K) :
    appends (done ++ succeeded (.replicate m (.append newParticles)) (.replicate m (.ok ()))) =
      appends done + m := by
  simp [appends, succeeded, List.zip_replicate', List.countP_replicate, Call.isAppend, Except.toBool]

omit [LE K] [LT K] in
theorem Without.latest {p q : Particles K} (h : Without p q) :
    q.getLatestParticles = p.getLatestParticles := by
  unfold getLatestParticles
  rw [← h.row, ← h.length, h.columns]
  simp [Function.comp_def, List.getD_eq_getElem?_getD]

/-- `getParticlesWithoutInit` gives the table without its first row, and goes on as the table itself
does. -/
def DropsInit (env : Env K) (particles : Particles K) : Prop :=
  ∃ q, particles.getParticlesWithoutInit = .ok q ∧
    q.columns = particles.columns.map (·.drop 1) ∧
    q.getLatestParticles = particles.getLatestParticles ∧
    ∀ calls : List (Call K), (∀ call ∈ calls, call.isTransform = false) →
      (feed (attempt env) q calls).1 = (feed (attempt env) particles calls).1 ∧
      (feed (attempt env) q calls).2.columns =
        (feed (attempt env) particles calls).2.columns.map (·.drop 1)

/-- Dropping the first row commutes with all that follows if and only if just one row has been
appended. -/
theorem dropsInit_iff (env : Env K) {initial : List K} {particleLength : ℕ}
    (hlength : 2 ≤ particleLength) {particles₀ : Particles K}
    (hnew : ofVector initial particleLength = .ok particles₀) (calls : List (Call K))
    (happend : 1 ≤ appends (succeeded calls (feed (attempt env) particles₀ calls).1)) :
    DropsInit env (feed (attempt env) particles₀ calls).2 ↔
      appends (succeeded calls (feed (attempt env) particles₀ calls).1) = 1 := by
  have h := sized_feed env calls (recorded_ofVector env hnew).toSized
  rw [List.nil_append] at h
  generalize feed (attempt env) particles₀ calls = run at h happend ⊢
  obtain ⟨q, hq, hcount, hlen, hrow, hcolumns⟩ :=
    getParticlesWithoutInit_eq (h.length.symm ▸ hlength)
  constructor
  · rintro ⟨q', hq', -, -, hfeed⟩
    obtain rfl : q = q' := Except.ok.inj (hq.symm.trans hq')
    by_contra hmore
    have hfits := h.fits
    have hlast := h.length
    -- the copy has room for these rows, the table has not
    set rows : List (Call K) := .replicate (particleLength - appends (succeeded calls run.1))
      (.append (.replicate initial.length 0)) with hrows
    have hrow' : ∀ call ∈ rows, call.isTransform = false := by
      intro call hcall
      rw [List.eq_of_mem_replicate hcall]
      rfl
    have hmany : (feed (attempt env) q rows).1 = .replicate _ (.ok ()) :=
      feed_appends _ (by rw [List.length_replicate, hcount, h.count]) (by omega)
    have hend := (sized_feed env rows h).fits
    rw [← (hfeed rows hrow').1, hmany, hrows, appends_replicate] at hend
    omega
  · intro hone
    have hwithout : Without run.2 q :=
      ⟨hcount, hlen, by rw [hrow, h.row, hone], hcolumns⟩
    refine ⟨q, hq, hcolumns, hwithout.latest, fun calls' hcalls => ?_⟩
    have hlast := h.length
    obtain ⟨hanswers, hend⟩ := hwithout.run env calls' (by omega) hcalls
    exact ⟨hanswers, hend.columns⟩

/-- After one row. -/
theorem dropsInit_iff_one : ∃ particles₀ : Particles ℚ, ofVector [0] 3 = .ok particles₀ ∧
    DropsInit stillEnv (feed (attempt stillEnv) particles₀ [.append [1]]).2 := by
  obtain ⟨particles₀, hnew⟩ : ∃ particles₀ : Particles ℚ, ofVector [0] 3 = .ok particles₀ := ⟨_, rfl⟩
  have h := dropsInit_iff stillEnv (by decide : 2 ≤ 3) hnew [.append [1]]
  cases hnew
  exact ⟨_, rfl, (h (by decide)).mpr (by decide)⟩

/-- After two rows the latest one is no longer the latest. -/
theorem dropsInit_fails : ∃ particles₀ : Particles ℚ, ofVector [0] 3 = .ok particles₀ ∧
    let particles := (feed (attempt stillEnv) particles₀ [.append [1], .append [2]]).2
    particles.getLatestParticles = .ok [2] ∧
      (particles.getParticlesWithoutInit >>= getLatestParticles) = .ok [1] ∧
      ¬ DropsInit stillEnv particles := by
  refine ⟨_, rfl, ?_⟩
  intro particles
  have hlatest : particles.getLatestParticles = .ok [2] := by decide +kernel
  have hcopy : (particles.getParticlesWithoutInit >>= getLatestParticles) = .ok [1] := by
    decide +kernel
  refine ⟨hlatest, hcopy, ?_⟩
  rintro ⟨q, hq, -, hsame, -⟩
  rw [hq, Except.ok_bind, hsame, hlatest] at hcopy
  revert hcopy
  decide +kernel

/-! ## The constructors from traces -/

omit [LE K] [LT K]

/-- The two constructors from traces of length `rows` give the same object, with the traces in its
first rows and zeros below, and the last row supplied as the current one. -/
def TracesAgree (traces : List (List K)) (rows particleLength : ℕ) : Prop :=
  ∃ (h : ∀ trace ∈ traces, trace.length = rows) (particles : Particles K),
    ofTraces traces particleLength = .ok particles ∧
      ofMatrix rows traces h particleLength = .ok particles ∧
      particles.particleLength = particleLength ∧ particles.particleCount = traces.length ∧
      particles.columns = traces.map (· ++ .replicate (particleLength - rows) 0) ∧
      particles.currentRow = rows - 1

/-- None are read where the length of the table is no `int`. -/
theorem rowsRead_eq {particleLength : ℕ} (hfits : particleLength < 2 ^ 32) :
    rowsRead particleLength = if particleLength < 2 ^ 31 then particleLength else 0 := by
  show min (Int32.ofNat particleLength).toInt.toNat particleLength = _
  split_ifs with hsmall
  · rw [Int32.toInt_ofNat_of_lt hsmall, Int.toNat_natCast, Nat.min_self]
  · have hneg : (Int32.ofNat particleLength).toInt ≤ 0 := by
      rw [Int32.toInt_ofNat', Int.bmod]
      simp only [Int32.size]
      split_ifs <;> omega
    rw [Int.toNat_of_nonpos hneg, Nat.zero_min]

section Traces

variable {traces : List (List K)} {rows particleLength : ℕ}

/-- The two constructors agree where the one from traces succeeds, reads the traces or zeros in their
place, and finds one row. -/
theorem tracesAgree_of (hcount : 1 ≤ traces.length)
    (htraces : ∀ trace ∈ traces, trace.length = rows) (hrows : rows = 1)
    (hlength : rows ≤ particleLength)
    (hmany : traces.length ≤ particleLength) (hfew : traces.length < 2 ^ 31)
    (hread : ∀ trace ∈ traces, rowsRead particleLength ≤ trace.length ∧
      trace.take (rowsRead particleLength) ++ .replicate (particleLength - rowsRead particleLength) 0 =
        trace ++ .replicate (particleLength - rows) 0) :
    TracesAgree traces rows particleLength := by
  have hne : traces ≠ [] := List.ne_nil_of_length_pos hcount
  have hrow : (UInt32.ofNat (traces.head hne).length - 1).toNat = rows - 1 := by
    rw [htraces _ (List.head_mem hne), hrows]
    rfl
  have hmatrix : ∃ particles, ofMatrix rows traces htraces particleLength = .ok particles ∧
      particles.particleLength = particleLength ∧ particles.particleCount = traces.length ∧
      particles.columns = traces.map (· ++ .replicate (particleLength - rows) 0) ∧
      particles.currentRow = rows - 1 := by
    unfold ofMatrix
    rw [dif_neg (Nat.not_lt.mpr hlength), dif_pos (by omega)]
    exact ⟨_, rfl, rfl, rfl, rfl, (by omega : 0 = rows - 1)⟩
  obtain ⟨particles, hmatrix, hlength', hcount', hcolumns, hrow'⟩ := hmatrix
  refine ⟨htraces, particles, ?_, hmatrix, hlength', hcount', hcolumns, hrow'⟩
  unfold ofTraces
  rw [if_neg (Nat.not_lt.mpr hmany), dif_neg hne,
    dif_pos ⟨hfew, fun trace htrace => (hread trace htrace).1⟩]
  refine congrArg Except.ok (Particles.ext hcount'.symm hlength'.symm ?_ ?_)
  · exact hrow.trans hrow'.symm
  · rw [hcolumns]
    exact List.map_congr_left fun trace htrace => (hread trace htrace).2

/-- The traces are to be as many as the table is long at most, and as long as the table at least if any
of them is read; and a matrix gives the first row. -/
theorem of_tracesAgree (htraces : ∀ trace ∈ traces, trace.length = rows) (hcount : 1 ≤ traces.length)
    (hrows : 1 ≤ rows) (hlength : rows ≤ particleLength) (hfits : particleLength < 2 ^ 32)
    (h : TracesAgree traces rows particleLength) :
    traces.length = 1 ∧ particleLength = 1 ∨
      rows = 1 ∧ traces.length < 2 ^ 31 ∧ 2 ^ 31 ≤ particleLength ∧
        ∀ trace ∈ traces, ∀ x ∈ trace, x = 0 := by
  obtain ⟨_, particles, htr, hmatrix, -, -, hcolumns, hrow⟩ := h
  unfold ofMatrix at hmatrix
  split_ifs at hmatrix
  cases hmatrix
  have hone : 0 = rows - 1 := hrow
  unfold ofTraces at htr
  split_ifs at htr with hmany hne hread
  have hzero := congrArg columns (Except.ok.inj htr)
  rw [List.map_inj_left, rowsRead_eq hfits] at hzero
  obtain ⟨trace, htrace⟩ := List.exists_mem_of_ne_nil traces hne
  have hfirst := hread.2 trace htrace
  rw [htraces trace htrace, rowsRead_eq hfits] at hfirst
  by_cases hsmall : particleLength < 2 ^ 31
  · rw [if_pos hsmall] at hfirst
    left
    omega
  · refine .inr ⟨by omega, hread.1, Nat.not_lt.mp hsmall, fun trace htrace x hx => ?_⟩
    have hx' := List.mem_append_left (.replicate (particleLength - rows) 0) hx
    rw [← hzero trace htrace, if_neg hsmall, List.take_zero, List.nil_append] at hx'
    exact List.eq_of_mem_replicate hx'

/-- The constructors agree on one trace of one row, and on traces of a zero in a table whose length is
no `int`. -/
theorem tracesAgree_iff (hcount : 1 ≤ traces.length)
    (htraces : ∀ trace ∈ traces, trace.length = rows) (hrows : 1 ≤ rows)
    (hlength : rows ≤ particleLength) (hfits : particleLength < 2 ^ 32) :
    TracesAgree traces rows particleLength ↔
      traces.length = 1 ∧ particleLength = 1 ∨
        rows = 1 ∧ traces.length < 2 ^ 31 ∧ 2 ^ 31 ≤ particleLength ∧
          ∀ trace ∈ traces, ∀ x ∈ trace, x = 0 := by
  refine ⟨of_tracesAgree htraces hcount hrows hlength hfits, ?_⟩
  rintro (⟨hone, rfl⟩ | ⟨rfl, hfew, hlarge, hzero⟩)
  · obtain rfl : rows = 1 := le_antisymm hlength hrows
    refine tracesAgree_of hcount htraces rfl hlength hone.le (by omega) fun trace htrace => ?_
    have hread : rowsRead 1 = 1 := rowsRead_eq hfits
    have hlen := htraces trace htrace
    exact ⟨by rw [hread, hlen], by rw [hread, List.take_of_length_le hlen.le]⟩
  · refine tracesAgree_of hcount htraces rfl hlength (by omega) hfew fun trace htrace => ?_
    have hread : rowsRead particleLength = 0 := by rw [rowsRead_eq hfits, if_neg (by omega)]
    obtain ⟨x, rfl⟩ := List.length_eq_one_iff.mp (htraces trace htrace)
    obtain rfl : x = 0 := hzero _ htrace x List.mem_cons_self
    refine ⟨by rw [hread]; exact Nat.zero_le _, ?_⟩
    rw [hread, List.take_zero, List.nil_append, Nat.sub_zero, List.singleton_append,
      ← List.replicate_succ, Nat.sub_add_cancel (by omega)]

end Traces

/-- One trace of one row. -/
theorem tracesAgree_iff_single : TracesAgree [[(7 : ℚ)]] 1 1 :=
  (tracesAgree_iff (by decide) (by decide) (by decide) (by decide) (by decide)).mpr (.inl ⟨rfl, rfl⟩)

/-- One trace of two rows: the current row is the second one, or the first one. -/
theorem traces_differ :
    (ofTraces [[(7 : ℚ), 8]] 2).map currentRow = .ok 1 ∧
      (ofMatrix 2 [[(7 : ℚ), 8]] (by decide) 2).map currentRow = .ok 0 ∧
      ¬ TracesAgree [[(7 : ℚ), 8]] 2 2 := by
  refine ⟨by decide +kernel, by decide +kernel, ?_⟩
  rintro ⟨_, particles, -, hmatrix, -, -, -, hrow⟩
  cases hmatrix
  have hfirst : (0 : ℕ) = 1 := hrow
  omega

end Particles

end StochasticVolatility

end SideProjects
