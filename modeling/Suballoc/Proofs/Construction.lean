import Suballoc.Platform
import Suballoc.Proofs.Guarded

/-!
# Construction in words

The parameters of a construction come from outside and may be any words. Some of its steps ask
whether a result is a word and complain if it is not; the others rely on it. Here the steps that
rely on it are taken with the operations of a build, so that a result out of range is a fault, and
the description of a region is shown to an allocation interface, which has conditions of its own.
Neither makes a difference: the checks before leave only results that are words and descriptions
that meet the conditions. So a construction in words ends, and it ends like the plain one.

The checks themselves are a list of complaints in exact integers, of which the first that applies
is made.
-/

namespace Suballoc

/-! ## Verdicts -/

/-- The verdict on parameters: the first of the complaints that applies, if any does. -/
def verdict : List (Bool × BadParameter) → Except SetupError Unit
  | [] => .ok ()
  | (applies, complaint) :: rest => if applies then .error (.invalid complaint) else verdict rest

section Verdict

variable {complaints : List (Bool × BadParameter)}

theorem verdict_cons_of_pos {applies : Prop} [Decidable applies] (h : applies)
    (complaint : BadParameter) (rest : List (Bool × BadParameter)) :
    verdict ((decide applies, complaint) :: rest) = .error (.invalid complaint) :=
  if_pos (decide_eq_true h)

theorem verdict_cons_of_neg {applies : Prop} [Decidable applies] (h : ¬ applies)
    (complaint : BadParameter) (rest : List (Bool × BadParameter)) :
    verdict ((decide applies, complaint) :: rest) = verdict rest :=
  if_neg (by rwa [decide_eq_true_iff])

theorem verdict_append (complaints others : List (Bool × BadParameter)) :
    verdict (complaints ++ others) = verdict complaints >>= fun _ ↦ verdict others := by
  induction complaints with
  | nil => rfl
  | cons entry rest ih =>
    obtain ⟨applies, complaint⟩ := entry
    rw [List.cons_append, verdict, verdict, ih]
    cases applies <;> rfl

theorem verdict_eq_ok_iff :
    verdict complaints = .ok () ↔ ∀ entry ∈ complaints, entry.1 = false := by
  induction complaints with
  | nil => exact iff_of_true rfl (by simp)
  | cons entry rest ih =>
    obtain ⟨applies, complaint⟩ := entry
    rw [List.forall_mem_cons, ← ih, verdict]
    cases applies <;> simp

theorem exists_of_verdict_eq_error {problem : SetupError}
    (h : verdict complaints = .error problem) :
    ∃ entry ∈ complaints, problem = .invalid entry.2 := by
  induction complaints with
  | nil => cases h
  | cons entry rest ih =>
    rw [verdict] at h
    split at h
    · exact ⟨entry, List.mem_cons_self, (Except.error.inj h).symm⟩
    · obtain ⟨other, hother, hproblem⟩ := ih h
      exact ⟨other, List.mem_cons_of_mem _ hother, hproblem⟩

end Verdict

/-! ## Constructions -/

/-- A construction whose steps are those of a build: it is answered or refused, unless it faults. -/
abbrev Construction (Answer : Type) := ExceptT SetupError (Except Fault) Answer

namespace Construction

variable {Answer Result : Type}

@[simp] theorem lift_ok_bind (answer : Answer) (next : Answer → Construction Result) :
    ((liftM (Except.ok answer : Except Fault Answer) : Construction Answer) >>= next) =
      next answer := rfl

/-- A construction ends like a plain one if it does so step by step. -/
theorem run_bind_eq {first : Construction Answer} {next : Answer → Construction Result}
    {outcome : Except SetupError Answer} {rest : Answer → Except SetupError Result}
    (hfirst : first.run = .ok outcome)
    (hnext : ∀ answer, outcome = .ok answer → (next answer).run = .ok (rest answer)) :
    (first >>= next).run = .ok (outcome >>= rest) := by
  rw [ExceptT.run_bind, hfirst]
  cases outcome with
  | error problem => rfl
  | ok answer => exact hnext answer rfl

end Construction

/-- A construction that accepts certain parameters and no others, refuses the others for the first
complaint that applies, and computes nothing that is not a word. -/
structure BuiltExactly {Engine : Type} (outcome : Except SetupError Engine)
    (inWords : Construction Engine) (Accepted : Prop) (complaints : List (Bool × BadParameter)) :
    Prop where
  built_iff : (∃ engine, outcome = .ok engine) ↔ Accepted
  refused_iff : ∀ problem, outcome = .error problem ↔ verdict complaints = .error problem
  run_eq : inWords.run = .ok outcome

namespace BuiltExactly

variable {Engine : Type} {outcome : Except SetupError Engine} {inWords : Construction Engine}
  {Accepted : Prop} {complaints : List (Bool × BadParameter)}

theorem of_verdict {engine : Engine} (hrun : inWords.run = .ok outcome)
    (houtcome : outcome = (verdict complaints).map fun _ ↦ engine)
    (haccepted : verdict complaints = .ok () ↔ Accepted) :
    BuiltExactly outcome inWords Accepted complaints where
  built_iff := by
    rw [← haccepted, houtcome]
    cases verdict complaints <;> simp [Except.map]
  refused_iff := by
    intro problem
    rw [houtcome]
    cases verdict complaints <;> simp [Except.map]
  run_eq := hrun

theorem run_ne (h : BuiltExactly outcome inWords Accepted complaints) {complaint : BadParameter}
    (hother : ∀ entry ∈ complaints, entry.2 ≠ complaint) :
    inWords.run ≠ .ok (.error (.invalid complaint)) := by
  rw [h.run_eq]
  intro hmade
  obtain ⟨entry, hentry, hproblem⟩ :=
    exists_of_verdict_eq_error ((h.refused_iff _).mp (Except.ok.inj hmade))
  exact hother entry hentry (SetupError.invalid.inj hproblem).symm

end BuiltExactly

/-! ## Reservations -/

namespace Reservation

variable {wanted : Reservation}

/-- An alignment that is a word is at most half of the addresses. -/
theorem le_spanLimit {alignment : Nat} (hpow : alignment.isPowerOfTwo)
    (hword : alignment < Word.limit) : alignment ≤ spanLimit := by
  obtain ⟨k, hk⟩ := dvd_of_isPowerOfTwo_of_le hpow isPowerOfTwo_limit (Nat.le_of_lt hword)
  have hhalf : Word.limit = spanLimit * 2 := rfl
  match k with
  | 0 | 1 => omega
  | k + 2 =>
    rw [Nat.mul_add] at hk
    omega

/-- The complaints about a region of some bytes. -/
def complaints (wanted : Reservation) : List (Bool × BadParameter) :=
  [(¬ wanted.alignment.isPowerOfTwo, .alignmentNotPowerOfTwo wanted.alignment),
    (wanted.alignment < Word.width, .alignmentBelowWord),
    (spanLimit < wanted.size + wanted.alignment, .regionTooLarge wanted.size)]

theorem check_eq_verdict (hsize : 0 < wanted.size) (hword : wanted.alignment < Word.limit) :
    wanted.check = verdict wanted.complaints := by
  rw [check, if_neg (Nat.ne_of_gt hsize), complaints]
  by_cases hpow : ¬ wanted.alignment.isPowerOfTwo
  · rw [if_pos hpow, verdict_cons_of_pos hpow]
  rw [if_neg hpow, verdict_cons_of_neg hpow]
  by_cases hwidth : wanted.alignment < Word.width
  · rw [if_pos hwidth, verdict_cons_of_pos hwidth]
  rw [if_neg hwidth, verdict_cons_of_neg hwidth]
  have hle := le_spanLimit (Decidable.of_not_not hpow) hword
  by_cases hlarge : spanLimit < wanted.size + wanted.alignment
  · rw [if_pos (by omega), verdict_cons_of_pos hlarge]
  · rw [if_neg (by omega), verdict_cons_of_neg hlarge, verdict]

/-- The check of a reservation, with its differences in words. -/
def checkInWords (build : Build) (wanted : Reservation) : Construction Unit :=
  if wanted.size = 0 then throw (.invalid .emptyRegion)
  else if ¬ wanted.alignment.isPowerOfTwo then
    throw (.invalid (.alignmentNotPowerOfTwo wanted.alignment))
  else if wanted.alignment < Word.width then throw (.invalid .alignmentBelowWord)
  else do
    let largest ← build.sub (spanLimit - 1) (← build.sub wanted.alignment 1)
    if largest < wanted.size then throw (.invalid (.regionTooLarge wanted.size))

theorem checkInWords_run (build : Build) (hword : wanted.alignment < Word.limit) :
    (wanted.checkInWords build).run = .ok wanted.check := by
  rw [checkInWords, check]
  split
  · rfl
  split
  · rfl
  split
  · rfl
  rename_i _ hpow hwidth
  have hle := le_spanLimit (Decidable.of_not_not hpow) hword
  have hpos : 1 ≤ wanted.alignment := Nat.le_trans (by decide) (Nat.not_lt.mp hwidth)
  have hlargest : build.sub (spanLimit - 1) (wanted.alignment - 1) =
      .ok (spanLimit - wanted.alignment) := by
    rw [Build.sub_of_le build (by omega)]
    exact congrArg Except.ok (by omega)
  simp only [Build.sub_of_le build hpos, hlargest, Construction.lift_ok_bind]
  split <;> rfl

theorem Valid.alignment_pos (h : wanted.Valid) : 0 < wanted.alignment :=
  Nat.pos_of_isPowerOfTwo h.isPowerOfTwo

/-- Rounding the size of a region up to its alignment does not leave half of the addresses. -/
theorem Valid.roundedUp_lt (h : wanted.Valid) :
    roundedUp wanted.size wanted.alignment < spanLimit := by
  obtain ⟨-, hlt⟩ := le_roundedUp_lt wanted.size h.alignment_pos
  have hpos := h.size_pos
  have hsize := h.size_le
  omega

theorem Valid.alignUp?_eq (h : wanted.Valid) :
    alignUp? wanted.size wanted.alignment = some (roundedUp wanted.size wanted.alignment) := by
  have hpos := h.size_pos
  have hsize := h.size_le
  have hhalf : spanLimit < Word.limit := by decide
  rw [alignUp?_eq_ite wanted.size h.isPowerOfTwo (by omega), if_pos (h.roundedUp_lt.trans hhalf)]

/-- What an allocation interface takes: the alignment is a power of two, and the size, rounded up to
it, is at most the largest number below half of the addresses. -/
def Describable (wanted : Reservation) : Prop :=
  wanted.alignment.isPowerOfTwo ∧ roundedUp wanted.size wanted.alignment ≤ spanLimit - 1

instance (wanted : Reservation) : Decidable wanted.Describable :=
  inferInstanceAs (Decidable (_ ∧ _))

theorem Valid.describable (h : wanted.Valid) : wanted.Describable :=
  ⟨h.isPowerOfTwo, Nat.le_sub_one_of_lt h.roundedUp_lt⟩

/-- The complaint about a description that an allocation interface does not take. -/
def notDescribable : BadParameter := .other "size" "invalid parameters to Layout::from_size_align"

end Reservation

/-! ## Regions -/

namespace Region

variable {platform : Platform} {wanted : Reservation}

/-- The region that a platform gives. -/
def given (platform : Platform) (wanted : Reservation) : Region where
  base := platform.base wanted.alignment
  alignment := wanted.alignment
  bytes := fillBytes wanted.size (if wanted.zeroed then fun _ ↦ 0 else platform.fresh)

theorem reserve_eq_verdict
    (hgrants : ∀ wanted : Reservation, wanted.Valid →
      platform.grants wanted.size wanted.alignment = true)
    (hsize : 0 < wanted.size) (hword : wanted.alignment < Word.limit) :
    reserve platform wanted = (verdict wanted.complaints).map fun _ ↦ given platform wanted := by
  rw [reserve, ← Reservation.check_eq_verdict hsize hword]
  cases hcheck : wanted.check with
  | error problem => rfl
  | ok =>
    rw [hgrants wanted ((Reservation.check_eq_ok_iff wanted).mp hcheck)]
    rfl

/-- Reserve a region in words: check the description, show it to the allocation interface, and ask
the platform. -/
def reserveInWords (build : Build) (platform : Platform) (wanted : Reservation) :
    Construction Region := do
  wanted.checkInWords build
  if ¬ wanted.Describable then throw (.invalid Reservation.notDescribable)
  else if platform.grants wanted.size wanted.alignment then return given platform wanted
  else throw (.refused wanted.size wanted.alignment)

theorem reserveInWords_run (build : Build) (hword : wanted.alignment < Word.limit) :
    (reserveInWords build platform wanted).run = .ok (reserve platform wanted) := by
  refine Construction.run_bind_eq (Reservation.checkInWords_run build hword) fun _ hcheck ↦ ?_
  have hvalid := (Reservation.check_eq_ok_iff wanted).mp hcheck
  rw [if_neg (not_not_intro hvalid.describable)]
  split <;> rfl

end Region

end Suballoc
