import ContentTables.Store.Program

/-!
# Programs that run next to each other

Between two effects of a program the others may do anything that all have agreed on. A `Discipline`
is such an agreement over a view of what the programs share.

* `Discipline` : what always holds, what the others may do, what a program may ask for, and what its
  effects do. An effect that a program may ask for keeps the invariant, and to the others it is one
  of the things they put up with (`sound`);
* `Program.Obeys`, `Operation.Obeys` : from a view on, a program asks only for what it may ask for,
  and ends with a result as specified, whatever the others do meanwhile. For an operation only
  results that are no failures are specified;
* `Program.Obeys.of_rely` : this is kept by what the others do;
* `Program.Obeys.bind`, `Operation.Obeys.bind` and the rules for single effects: a specification
  from those of the parts.
-/

namespace ContentTables

structure Discipline (ν : Type) where
  invariant : ν → Prop
  rely : ν → ν → Prop
  may : ν → Effect → Prop
  /-- The answer of an effect and the view after it. -/
  effect : ν → (e : Effect) → e.Answer → ν → Prop
  rely_refl (v : ν) : rely v v
  rely_trans {u v w : ν} : rely u v → rely v w → rely u w
  sound {v w : ν} {e : Effect} {a : e.Answer} :
    invariant v → may v e → effect v e a w → invariant w ∧ rely v w

variable {ν α β : Type} {d : Discipline ν}

/-! ## Programs -/

namespace Program

def Obeys (d : Discipline ν) (post : α → ν → Prop) : Program α → ν → Prop
  | .done a, v => ∀ w, d.invariant w → d.rely v w → post a w
  | .perform e next, v => ∀ w, d.invariant w → d.rely v w →
    d.may w e ∧ ∀ a u, d.effect w e a u → (next a).Obeys d post u

theorem Obeys.of_rely {post : α → ν → Prop} {p : Program α} {v w : ν} (h : p.Obeys d post v)
    (hrely : d.rely v w) : p.Obeys d post w := by
  cases p with
  | done a => exact fun u hu hw => h u hu (d.rely_trans hrely hw)
  | perform e next => exact fun u hu hw => h u hu (d.rely_trans hrely hw)

/-- The others may go on before the first effect. -/
theorem Obeys.of_all {post : α → ν → Prop} {p : Program α} {v : ν}
    (h : ∀ w, d.invariant w → d.rely v w → p.Obeys d post w) : p.Obeys d post v := by
  cases p with
  | done a => exact fun w hw hvw => h w hw hvw w hw (d.rely_refl w)
  | perform e next => exact fun w hw hvw => h w hw hvw w hw (d.rely_refl w)

theorem Obeys.mono {post post' : α → ν → Prop} {p : Program α} {v : ν} (h : p.Obeys d post v)
    (hpost : ∀ a w, post a w → post' a w) : p.Obeys d post' v := by
  induction p generalizing v with
  | done a => exact fun w hw hvw => hpost a w (h w hw hvw)
  | perform e next ih =>
    intro w hw hvw
    obtain ⟨hmay, hnext⟩ := h w hw hvw
    exact ⟨hmay, fun a u hu => ih a (hnext a u hu)⟩

/-- The second program starts at a view that the first one and the others have led to. -/
theorem Obeys.bind {post : β → ν → Prop} {p : Program α} {f : α → Program β} {v : ν}
    (h : p.Obeys d (fun a w => d.rely v w → (f a).Obeys d post w) v) :
    (p.bind f).Obeys d post v := by
  have hfrom : ∀ u, d.rely v u → p.Obeys d (fun a w => d.rely v w → (f a).Obeys d post w) u →
      (p.bind f).Obeys d post u := by
    clear h
    induction p with
    | done a =>
      intro u hu h
      exact Obeys.of_all fun w hw huw => h w hw huw (d.rely_trans hu huw)
    | perform e next ih =>
      intro u hu h w hw huw
      obtain ⟨hmay, hnext⟩ := h w hw huw
      refine ⟨hmay, fun a x hx => ih a x ?_ (hnext a x hx)⟩
      exact d.rely_trans hu (d.rely_trans huw (d.sound hw hmay hx).2)
  exact hfrom v (d.rely_refl v) h

end Program

/-! ## Operations -/

namespace Operation

/-- A failure is not specified. -/
def Obeys (d : Discipline ν) (post : α → ν → Prop) (x : Operation α) (v : ν) : Prop :=
  Program.Obeys d (fun result w => ∀ a, result = .ok a → post a w) x.run v

theorem obeys_pure {post : α → ν → Prop} {a : α} {v : ν}
    (h : ∀ w, d.invariant w → d.rely v w → post a w) : Obeys d post (pure a) v := by
  intro w hw hvw b hb
  obtain rfl : a = b := Except.ok.inj hb
  exact h w hw hvw

theorem obeys_throw {post : α → ν → Prop} {e : StoreError} {v : ν} :
    Obeys d post (throw e) v :=
  fun _ _ _ _ h => nomatch h

theorem Obeys.bind {mid : α → ν → Prop} {post : β → ν → Prop} {x : Operation α}
    {f : α → Operation β} {v : ν} (hx : Obeys d mid x v)
    (hf : ∀ a w, mid a w → d.rely v w → Obeys d post (f a) w) : Obeys d post (x >>= f) v := by
  show Program.Obeys d _ (Program.bind x.run (ExceptT.bindCont f)) v
  refine Program.Obeys.bind (Program.Obeys.mono hx ?_)
  intro result w hresult hvw
  cases result with
  | ok a => exact hf a w (hresult a rfl) hvw
  | error e => exact fun _ _ _ _ h => nomatch h

/-- What the effect leads to is later than the view before it. -/
theorem obeys_ask_bind {post : β → ν → Prop} {e : Effect} {f : e.Answer → Operation β} {v : ν}
    (h : ∀ w, d.invariant w → d.rely v w →
      d.may w e ∧ ∀ a u, d.effect w e a u → d.rely v u → Obeys d post (f a) u) :
    Obeys d post (ask e >>= f) v := by
  intro w hw hvw
  obtain ⟨hmay, hnext⟩ := h w hw hvw
  exact ⟨hmay, fun a u hu => hnext a u hu (d.rely_trans hvw (d.sound hw hmay hu).2)⟩

theorem obeys_ofExcept_bind {post : β → ν → Prop} {result : Except StoreError α}
    {f : α → Operation β} {v : ν} (h : ∀ a, result = .ok a → Obeys d post (f a) v) :
    Obeys d post (ofExcept result >>= f) v := by
  cases result with
  | ok a => exact h a rfl
  | error e => exact fun _ _ _ _ h => nomatch h

/-- A statement that fails ends the operation. -/
theorem obeys_fetch_bind {post : β → ν → Prop} {s : Statement} {f : List Row → Operation β} {v : ν}
    (h : ∀ w, d.invariant w → d.rely v w → d.may w (.fetch s) ∧
      ∀ rows u, d.effect w (.fetch s) (.ok rows) u → d.rely v u → Obeys d post (f rows) u) :
    Obeys d post (fetch s >>= f) v := by
  refine obeys_ask_bind fun w hw hvw => ⟨(h w hw hvw).1, fun a u hu hvu => ?_⟩
  cases a with
  | ok rows => exact (h w hw hvw).2 rows u hu hvu
  | error fault => exact fun _ _ _ _ h => nomatch h

theorem obeys_execute_bind {post : β → ν → Prop} {s : Statement} {f : Written → Operation β} {v : ν}
    (h : ∀ w, d.invariant w → d.rely v w → d.may w (.execute s) ∧
      ∀ written u, d.effect w (.execute s) (.ok written) u → d.rely v u →
        Obeys d post (f written) u) :
    Obeys d post (execute s >>= f) v := by
  refine obeys_ask_bind fun w hw hvw => ⟨(h w hw hvw).1, fun a u hu hvu => ?_⟩
  cases a with
  | ok written => exact (h w hw hvw).2 written u hu hvu
  | error fault => exact fun _ _ _ _ h => nomatch h

end Operation

end ContentTables
