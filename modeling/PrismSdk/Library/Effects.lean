import Mathlib.Algebra.Ring.Nat
import Mathlib.Data.List.Infix
import Mathlib.Tactic.Common

/-! Programs that make requests of a world outside. A request is answered or throws, and
every one leaves an event in the trace, so that what holds of the traces of a program for
every world holds of all its runs. Triples have one condition for a normal end and one for
an exception; loops are cut after a number of turns. -/

namespace PrismSdk.Library.Effects

variable {R : Type} {A : R → Type} {σ τ α β : Type}

/-- A request with what came of it. -/
structure Event (A : R → Type) where
  request : R
  outcome : Except String (A request)

namespace Event

def succeeds (e : Event A) : Bool := e.outcome.isOk

@[simp] theorem succeeds_ok (r : R) (a : A r) : (⟨r, .ok a⟩ : Event A).succeeds = true := rfl

@[simp] theorem succeeds_error (r : R) (what : String) :
    (⟨r, .error what⟩ : Event A).succeeds = false := rfl

end Event

/-- What answers the requests. It may go by everything that happened before. -/
abbrev World (A : R → Type) := List (Event A) → ∀ r, Except String (A r)

structure Config (A : R → Type) (σ : Type) where
  locals : σ
  trace : List (Event A) := []

def Config.push (c : Config A σ) (e : Event A) : Config A σ := { c with trace := c.trace ++ [e] }

@[simp] theorem Config.push_locals (c : Config A σ) (e : Event A) :
    (c.push e).locals = c.locals := rfl

@[simp] theorem Config.push_trace (c : Config A σ) (e : Event A) :
    (c.push e).trace = c.trace ++ [e] := rfl

/-- A program with local variables of type `σ` ends with a value or throws. -/
def Program (A : R → Type) (σ α : Type) : Type :=
  World A → Config A σ → Except String α × Config A σ

namespace Program

instance : Monad (Program A σ) where
  pure a := fun _ c => (.ok a, c)
  bind x f := fun w c =>
    match x w c with
    | (.ok a, c) => f a w c
    | (.error what, c) => (.error what, c)

theorem bind_apply (x : Program A σ α) (f : α → Program A σ β) (w : World A)
    (c : Config A σ) : (x >>= f) w c =
      match x w c with
      | (.ok a, c) => f a w c
      | (.error what, c) => (.error what, c) := rfl

def request (r : R) : Program A σ (A r) := fun w c => (w c.trace r, c.push ⟨r, w c.trace r⟩)

/-- A request that does not throw, whatever answers. -/
def observe (r : R) (fallback : A r) : Program A σ (A r) := fun w c =>
  let a := (w c.trace r).toOption.getD fallback
  (.ok a, c.push ⟨r, .ok a⟩)

def throw (what : String) : Program A σ α := fun _ c => (.error what, c)

/-- `try x catch handler`. -/
def catching (x : Program A σ α) (handler : String → Program A σ α) : Program A σ α := fun w c =>
  match x w c with
  | (.ok a, c) => (.ok a, c)
  | (.error what, c) => handler what w c

def locals : Program A σ σ := fun _ c => (.ok c.locals, c)

def modify (f : σ → σ) : Program A σ Unit := fun _ c => (.ok (), { c with locals := f c.locals })

/-- `if (bad) throw std::runtime_error(what)`. -/
def throwIf (bad : Prop) [Decidable bad] (what : String) : Program A σ Unit :=
  if bad then throw what else pure ()

theorem request_bind_apply (r : R) (f : A r → Program A σ β) (w : World A) (c : Config A σ) :
    (request r >>= f) w c =
      match w c.trace r with
      | .ok a => f a w (c.push ⟨r, .ok a⟩)
      | .error what => (.error what, c.push ⟨r, .error what⟩) := by
  rw [bind_apply, request]
  cases w c.trace r <;> rfl

theorem throwIf_bind_apply (bad : Prop) [Decidable bad] (what : String) (x : Program A σ β)
    (w : World A) (c : Config A σ) :
    (throwIf bad what >>= fun _ => x) w c = if bad then (.error what, c) else x w c := by
  unfold throwIf
  split_ifs <;> rfl

theorem bind_pure_apply (x : Program A σ α) (f : α → β) (w : World A) (c : Config A σ) :
    (x >>= fun a => pure (f a)) w c = ((x w c).1.map f, (x w c).2) := by
  rw [bind_apply]
  match x w c with
  | (.ok _, _) => rfl
  | (.error _, _) => rfl

/-- At most `n` turns of `while (condition) body`, and whether the loop has ended. -/
def loop (condition : Program A σ Bool) (body : Program A σ Unit) : ℕ → Program A σ Bool
  | 0 => pure false
  | n + 1 => do
    if ← condition then
      body
      loop condition body n
    else pure true

/-- `x`, and a destructor when it is left in either way; a run that is cut has not left it. -/
def guarded (x : Program A σ (Option α)) (destructor : Program A σ Unit) :
    Program A σ (Option α) := do
  match ← x.catching fun what => do destructor; throw what with
  | none => pure none
  | some a => do destructor; pure (some a)

/-- `main`: an exception makes the exit code 1. -/
def exitCode (x : Program A σ (Option ℕ)) : Program A σ (Option ℕ) := x.catching fun _ => pure (some 1)

end Program

/-! ### Triples -/

/-- The end of a run meets its condition. -/
def Post (Q : α → Config A σ → Prop) (E : String → Config A σ → Prop) :
    Except String α × Config A σ → Prop
  | (.ok a, c) => Q a c
  | (.error what, c) => E what c

/-- From where `P` holds, `x` ends with `Q` or throws with `E`, whatever the world. -/
def Triple (P : Config A σ → Prop) (x : Program A σ α) (Q : α → Config A σ → Prop)
    (E : String → Config A σ → Prop) : Prop :=
  ∀ w c, P c → Post Q E (x w c)

namespace Triple

variable {P P' : Config A σ → Prop} {x : Program A σ α} {Q Q' : α → Config A σ → Prop}
  {E F : String → Config A σ → Prop}

theorem conseq (h : Triple P' x Q' F) (hP : ∀ c, P c → P' c) (hQ : ∀ a c, Q' a c → Q a c)
    (hE : ∀ what c, F what c → E what c) : Triple P x Q E := by
  intro w c hc
  have hx := h w c (hP c hc)
  revert hx
  match x w c with
  | (.ok a, c) => exact hQ a c
  | (.error what, c) => exact hE what c

theorem trivial : Triple P x (fun _ _ => True) fun _ _ => True := by
  intro w c hc
  match x w c with
  | (.ok a, c) => exact True.intro
  | (.error what, c) => exact True.intro

theorem and (h : Triple P x Q E) (h' : Triple P' x Q' F) :
    Triple (fun c => P c ∧ P' c) x (fun a c => Q a c ∧ Q' a c) fun what c => E what c ∧ F what c := by
  intro w c hc
  have hx := h w c hc.1
  have hx' := h' w c hc.2
  revert hx hx'
  match x w c with
  | (.ok a, c) => exact And.intro
  | (.error what, c) => exact And.intro

theorem pure {a : α} (h : ∀ c, P c → Q a c) : Triple P (pure a) Q E := fun _ c hc => h c hc

theorem throw {what : String} (h : ∀ c, P c → E what c) : Triple P (.throw what) Q E :=
  fun _ c hc => h c hc

theorem bind {R' : β → Config A σ → Prop} {f : α → Program A σ β} (hx : Triple P x Q E)
    (hf : ∀ a, Triple (Q a) (f a) R' E) : Triple P (x >>= f) R' E := by
  intro w c hc
  have h := hx w c hc
  rw [Program.bind_apply]
  revert h
  match x w c with
  | (.ok a, c) => exact hf a w c
  | (.error what, c) => exact id

theorem catching {handler : String → Program A σ α} (hx : Triple P x Q F)
    (hhandler : ∀ what, Triple (F what) (handler what) Q E) :
    Triple P (x.catching handler) Q E := by
  intro w c hc
  have h := hx w c hc
  unfold Program.catching
  revert h
  match x w c with
  | (.ok a, c) => exact id
  | (.error what, c) => exact hhandler what w c

theorem request {r : R} {Q : A r → Config A σ → Prop}
    (hok : ∀ c a, P c → Q a (c.push ⟨r, .ok a⟩))
    (herror : ∀ c what, P c → E what (c.push ⟨r, .error what⟩)) :
    Triple P (.request r) Q E := by
  intro w c hc
  unfold Program.request
  cases h : w c.trace r with
  | ok a => exact hok c a hc
  | error what => exact herror c what hc

theorem observe {r : R} {fallback : A r} {Q : A r → Config A σ → Prop}
    (h : ∀ c a, P c → Q a (c.push ⟨r, .ok a⟩)) : Triple P (.observe r fallback) Q E :=
  fun _ c hc => h c _ hc

theorem locals {Q : σ → Config A σ → Prop} (h : ∀ c, P c → Q c.locals c) :
    Triple P .locals Q E := fun _ c hc => h c hc

theorem modify {f : σ → σ} {Q : Unit → Config A σ → Prop}
    (h : ∀ c, P c → Q () { c with locals := f c.locals }) : Triple P (.modify f) Q E :=
  fun _ c hc => h c hc

theorem throwIf {bad : Prop} [Decidable bad] {what : String} {Q : Unit → Config A σ → Prop}
    (hok : ¬ bad → ∀ c, P c → Q () c) (hbad : bad → ∀ c, P c → E what c) :
    Triple P (.throwIf bad what) Q E := by
  unfold Program.throwIf
  split_ifs with h
  · exact throw (hbad h)
  · exact pure (hok h)

theorem ite {p : Prop} [Decidable p] {y : Program A σ α} (hx : p → Triple P x Q E)
    (hy : ¬ p → Triple P y Q E) : Triple P (if p then x else y) Q E := by
  split_ifs with h
  · exact hx h
  · exact hy h

/-- An invariant of the body is one of the loop over a list. -/
theorem forM {l : List β} {f : β → Program A σ PUnit} {I : Config A σ → Prop}
    (h : ∀ b ∈ l, Triple I (f b) (fun _ => I) E) : Triple I (l.forM f) (fun _ => I) E := by
  induction l with
  | nil => exact pure fun _ => id
  | cons b l ih =>
    exact bind (h b List.mem_cons_self) fun _ => ih fun b' hb' => h b' (List.mem_cons_of_mem _ hb')

/-- A condition on what is left of the list. -/
theorem forM_rest {f : β → Program A σ PUnit} {I : List β → Config A σ → Prop}
    (h : ∀ b rest, Triple (I (b :: rest)) (f b) (fun _ => I rest) E) (l : List β) :
    Triple (I l) (l.forM f) (fun _ => I []) E := by
  induction l with
  | nil => exact pure fun _ => id
  | cons b l ih => exact bind (h b l) fun _ => ih

/-- An invariant of the condition and the body is one of the loop. -/
theorem loop {condition : Program A σ Bool} {body : Program A σ Unit} {I : Config A σ → Prop}
    (hcondition : Triple I condition (fun _ => I) E) (hbody : Triple I body (fun _ => I) E)
    (n : ℕ) : Triple I (.loop condition body n) (fun _ => I) E := by
  induction n with
  | zero => exact pure fun _ => id
  | succ n ih =>
    refine bind hcondition fun b => ?_
    cases b with
    | true => exact bind hbody fun _ => ih
    | false => exact pure fun _ => id

/-- A destructor that throws nothing. -/
theorem guarded {x : Program A σ (Option α)} {destructor : Program A σ Unit}
    {Q : Option α → Config A σ → Prop} {S : Option α → Config A σ → Prop}
    (hx : Triple P x S F) (hnone : ∀ c, S none c → Q none c)
    (hsome : ∀ a, Triple (S (some a)) destructor (fun _ => Q (some a)) E)
    (herror : ∀ what, Triple (F what) destructor (fun _ => E what) E) :
    Triple P (x.guarded destructor) Q E := by
  refine bind (Q := fun a c => S a c) (catching hx fun what => ?_) fun a => ?_
  · exact bind (herror what) fun _ => throw fun _ => id
  · cases a with
    | none => exact pure hnone
    | some a => exact bind (hsome a) fun _ => pure fun _ => id

/-- A run of `main` ends without an exception, or with 1 where there was one. -/
theorem exitCode {x : Program A σ (Option ℕ)} {Q : Option ℕ → Config A σ → Prop}
    {E : Config A σ → Prop} (hx : Triple P x Q fun _ => E) (w : World A) {c : Config A σ}
    (hc : P c) : ∃ result c', x.exitCode w c = (.ok result, c') ∧
      (Q result c' ∨ result = some 1 ∧ E c') := by
  have hpost := hx w c hc
  unfold Program.exitCode Program.catching
  revert hpost
  match x w c with
  | (.ok result, c') => exact fun h => ⟨result, c', rfl, .inl h⟩
  | (.error _, c') => exact fun h => ⟨some 1, c', rfl, .inr ⟨rfl, h⟩⟩

end Triple

/-- `x` keeps `I`, however it ends. -/
def Keeps (I : Config A σ → Prop) (x : Program A σ α) : Prop :=
  Triple I x (fun _ => I) (fun _ => I)

/-! ### Frames -/

/-- What a program may do without the condition noticing: make requests that are not
`loud`, and change the local variables apart from what `view` shows. -/
structure Framed (loud : R → Bool) (view : σ → τ) (I : Config A σ → Prop) : Prop where
  push : ∀ c e, loud e.request = false → I c → I (c.push e)
  set : ∀ c l, view l = view c.locals → I c → I { c with locals := l }

/-- A condition on what is loud and what is seen. -/
theorem framed_of (loud : R → Bool) (view : σ → τ) (holds : τ → List (Event A) → Prop) :
    Framed loud view fun c => holds (view c.locals) (c.trace.filter fun e => loud e.request) where
  push c e he h := by
    simpa [he] using h
  set c l hl h := by
    simpa only [hl] using h

namespace Framed

variable {loud : R → Bool} {view : σ → τ} {I : Config A σ → Prop}

theorem ask (h : Framed loud view I) {r : R} (hr : loud r = false) : Keeps I (.request r) :=
  Triple.request (fun c _ => h.push c _ hr) fun c _ => h.push c _ hr

theorem observe (h : Framed loud view I) {r : R} {fallback : A r} (hr : loud r = false) :
    Keeps I (.observe r fallback) :=
  Triple.observe fun c _ => h.push c _ hr

theorem modify (h : Framed loud view I) {f : σ → σ} (hf : ∀ l, view (f l) = view l) :
    Keeps I (.modify f) :=
  Triple.modify fun c => h.set c _ (hf _)

end Framed

/-! ### Kinds of requests -/

/-- What the requests of a run ask for, of one kind. -/
def asked (kind : R → Option β) (trace : List (Event A)) : List β :=
  trace.filterMap fun e => kind e.request

/-- What is asked for and was done. -/
def done (kind : R → Option β) (trace : List (Event A)) : List β :=
  asked kind (trace.filter fun e => e.succeeds)

theorem done_push (kind : R → Option β) (trace : List (Event A)) (e : Event A) :
    done kind (trace ++ [e]) =
      done kind trace ++ if e.succeeds then (kind e.request).toList else [] := by
  unfold done asked
  rw [List.filter_append, List.filterMap_append]
  congr 1
  by_cases h : e.succeeds
  · cases hkind : kind e.request <;> simp [h, hkind]
  · simp [h]

/-- A counter of 64 bits shows nothing. -/
theorem ofNat_eq_zero_iff (n : ℕ) : UInt64.ofNat n = 0 ↔ 2 ^ 64 ∣ n := by
  rw [← UInt64.toNat_inj, UInt64.toNat_ofNat', Nat.dvd_iff_mod_eq_zero]
  rfl

/-! ### Requests made in order -/

/-- What is left behind by a run that makes the requests `rs` one after the other, and goes
on only while they succeed. -/
inductive Carried (rs : List R) : Except String α → List (Event A) → Prop where
  | whole {done : List (Event A)} (a : α) (requests : done.map (·.request) = rs)
    (succeed : ∀ e ∈ done, e.succeeds) : Carried rs (.ok a) done
  | cut {done : List (Event A)} {r : R} (what : String) (rest : List R)
    (requests : done.map (·.request) ++ r :: rest = rs) (succeed : ∀ e ∈ done, e.succeeds) :
    Carried rs (.error what) (done ++ [⟨r, .error what⟩])

namespace Carried

variable {rs rs' : List R} {done done' : List (Event A)}

theorem append {a : α} {result : Except String β} (h : Carried rs (.ok a) done)
    (h' : Carried rs' result done') : Carried (rs ++ rs') result (done ++ done') := by
  cases h with
  | whole _ hrequests hsucceed =>
    cases h' with
    | whole b hrequests' hsucceed' =>
      refine .whole b (by rw [List.map_append, hrequests, hrequests']) fun e he => ?_
      exact (List.mem_append.1 he).elim (hsucceed e) (hsucceed' e)
    | cut what rest hrequests' hsucceed' =>
      rw [← List.append_assoc]
      refine .cut what rest ?_ fun e he => (List.mem_append.1 he).elim (hsucceed e) (hsucceed' e)
      rw [List.map_append, hrequests, List.append_assoc, hrequests']

/-- The first request throws. -/
theorem at_once (r : R) (rest : List R) (what : String) :
    Carried (r :: rest) (.error what : Except String α) [(⟨r, .error what⟩ : Event A)] := by
  have hsucceed : ∀ e ∈ ([] : List (Event A)), e.succeeds := by simp
  exact .cut what rest rfl hsucceed

theorem of_error {what : String} (h : Carried rs (.error what : Except String α) done) :
    Carried (rs ++ rs') (.error what : Except String β) done := by
  cases h with
  | cut _ rest hrequests hsucceed =>
    refine .cut what (rest ++ rs') ?_ hsucceed
    rw [← hrequests, List.append_assoc, List.cons_append]

theorem isPrefix {result : Except String α} (h : Carried rs result done) :
    done.map (·.request) <+: rs := by
  cases h with
  | whole a hrequests => rw [hrequests]
  | cut what rest hrequests =>
    refine ⟨rest, ?_⟩
    rw [← hrequests, List.map_append, List.append_assoc]
    rfl

/-- Only the last request can have failed. -/
theorem succeeds {result : Except String α} (h : Carried rs result done) :
    ∀ e ∈ done.dropLast, e.succeeds := by
  intro e he
  cases h with
  | whole a _ hsucceed => exact hsucceed e (List.dropLast_subset _ he)
  | cut what rest _ hsucceed =>
    rw [List.dropLast_concat] at he
    exact hsucceed e he

end Carried

/-- The program makes the requests, and no others, and leaves what `view` shows of its
local variables. -/
def Performs (view : σ → τ) (x : Program A σ α) (rs : List R) : Prop :=
  ∀ w c, view (x w c).2.locals = view c.locals ∧
    ∃ done, (x w c).2.trace = c.trace ++ done ∧ Carried rs (x w c).1 done

namespace Performs

variable {view : σ → τ} {x : Program A σ α} {rs rs' : List R}

theorem pure (a : α) : Performs (A := A) view (pure a) [] :=
  fun _ c => ⟨rfl, [], (List.append_nil c.trace).symm, .whole a rfl (by simp)⟩

theorem modify {f : σ → σ} (h : ∀ l, view (f l) = view l) : Performs (A := A) view (.modify f) [] :=
  fun _ c => ⟨h c.locals, [], (List.append_nil c.trace).symm, .whole () rfl (by simp)⟩

theorem request (r : R) : Performs (A := A) view (.request r) [r] := by
  intro w c
  unfold Program.request
  refine ⟨rfl, [⟨r, w c.trace r⟩], rfl, ?_⟩
  cases w c.trace r with
  | ok a => exact .whole a rfl (by simp)
  | error what => exact .at_once r [] what

theorem bind {f : α → Program A σ β} (hx : Performs view x rs)
    (hf : ∀ a, Performs view (f a) rs') : Performs view (x >>= f) (rs ++ rs') := by
  intro w c
  rw [Program.bind_apply]
  obtain ⟨hview, done, htrace, hdone⟩ := hx w c
  match hrun : x w c with
  | (.error what, c') =>
    rw [hrun] at hview htrace hdone
    exact ⟨hview, done, htrace, hdone.of_error⟩
  | (.ok a, c') =>
    rw [hrun] at hview htrace hdone
    obtain ⟨hview', done', htrace', hdone'⟩ := hf a w c'
    refine ⟨hview'.trans hview, done ++ done', ?_, hdone.append hdone'⟩
    rw [htrace', htrace, List.append_assoc]

theorem forM {l : List β} {f : β → Program A σ PUnit} {g : β → List R}
    (h : ∀ b ∈ l, Performs view (f b) (g b)) : Performs view (l.forM f) (l.flatMap g) := by
  induction l with
  | nil => exact pure _
  | cons b l ih =>
    rw [List.flatMap_cons]
    exact bind (h b List.mem_cons_self) fun _ => ih fun b' hb' => h b' (List.mem_cons_of_mem _ hb')

end Performs

/-! ### What comes before a request -/

/-- Each element of the list has before it what `leads` wants. -/
def Led (leads : List R → R → Prop) (l : List R) : Prop :=
  ∀ before r after, l = before ++ r :: after → leads before r

namespace Led

variable {leads : List R → R → Prop} {l l' : List R}

theorem of_isPrefix (h : Led leads l) (hinitial : l' <+: l) : Led leads l' := by
  obtain ⟨rest, rfl⟩ := hinitial
  rintro before r after rfl
  exact h before r (after ++ rest) (by simp)

theorem nil : Led leads ([] : List R) := by
  intro before r after h
  cases before <;> cases h

theorem snoc (h : Led leads l) {r : R} (hr : leads l r) : Led leads (l ++ [r]) := by
  intro before r' after heq
  rcases List.eq_nil_or_concat after with rfl | ⟨rest, last, rfl⟩
  · obtain ⟨rfl, hlast⟩ := List.append_inj' heq rfl
    cases hlast
    exact hr
  · rw [List.concat_eq_append, ← List.cons_append, ← List.append_assoc] at heq
    exact h before r' rest (List.append_inj' heq rfl).1

theorem append (hleads : ∀ before r more, leads before r → leads (more ++ before) r)
    (h : Led leads l) (h' : Led leads l') : Led leads (l ++ l') := by
  intro before r after heq
  rcases List.append_eq_append_iff.1 heq with ⟨rest, rfl, hrest⟩ | ⟨rest, rfl, hrest⟩
  · exact hleads rest r l (h' rest r after hrest)
  · cases rest with
    | nil =>
      have hnow := hleads [] r before (h' [] r after hrest.symm)
      rwa [List.append_nil] at hnow
    | cons r' rest =>
      obtain ⟨rfl, -⟩ := List.cons.inj hrest
      exact h before r rest rfl

theorem flatMap (hleads : ∀ before r more, leads before r → leads (more ++ before) r)
    {bs : List β} {f : β → List R} (h : ∀ b ∈ bs, Led leads (f b)) : Led leads (bs.flatMap f) := by
  induction bs with
  | nil => exact nil
  | cons b bs ih =>
    rw [List.flatMap_cons]
    exact append hleads (h b List.mem_cons_self) (ih fun b' hb' => h b' (List.mem_cons_of_mem _ hb'))

end Led

end PrismSdk.Library.Effects
