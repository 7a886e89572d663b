import ThreadAffinity.Bind
import ThreadAffinity.Proofs.Course

/-!
# Two dialogues that tally

Two dialogues tally when they cannot be told apart by someone who replies to both in the
same way: whichever two systems carry them on, as long as the replies agree, the transcripts
are the same and the results are as related as promised. Nothing is assumed about which
questions come; that these are the same is part of what is concluded.

What is compared is what a view shows of an exchange. A view may hide something that is of
no concern to either side, such as the number under which a set was lent out; then replies
that differ only in that agree.

Contracts are put together along `bind` (`Tallies.bind`). `Backend.Respects` is the contract
of a whole backend, with a relation between editors that are alike as far as the view goes;
the last section carries it from the operations of a backend to what is done in one go.
-/

namespace ThreadAffinity

variable {I : Interface} {E α β γ δ σ τ : Type}

abbrev Exchange (I : Interface) := (request : I.Request) × I.Reply request

/-- An entry as a view shows it. Events are always shown. -/
def Entry.seen (view : Exchange I → Exchange I) : Entry I → Entry I
  | .call request reply => .call (view ⟨request, reply⟩).1 (view ⟨request, reply⟩).2
  | .event noted => .event noted

theorem Entry.seen_call {view : Exchange I → Exchange I} {r q : I.Request} {x : I.Reply r}
    {y : I.Reply q} (h : view ⟨r, x⟩ = view ⟨q, y⟩) :
    (Entry.call r x).seen view = (Entry.call q y).seen view :=
  congrArg (fun shown : Exchange I => Entry.call shown.1 shown.2) h

/-- A view that hides nothing shows the entries as they are. -/
theorem Entry.map_seen_id (entries : List (Entry I)) : entries.map (Entry.seen id) = entries := by
  induction entries with
  | nil => rfl
  | cons entry entries ih =>
      cases entry with
      | call request reply => exact congrArg (_ :: ·) ih
      | event noted => exact congrArg (_ :: ·) ih

theorem length_exchangesOf_of_seen {view : Exchange I → Exchange I} {xs ys : List (Entry I)}
    (h : xs.map (Entry.seen view) = ys.map (Entry.seen view)) :
    (exchangesOf xs).length = (exchangesOf ys).length := by
  induction xs generalizing ys with
  | nil => rw [List.map_eq_nil_iff.mp h.symm]
  | cons x xs ih =>
      obtain ⟨y, ys, rfl, hxy, hrest⟩ := List.map_eq_cons_iff.mp h.symm
      have hlength := ih hrest.symm
      cases x with
      | call request reply =>
          cases y with
          | call other given => simpa using hlength
          | event noted => cases hxy
      | event noted =>
          cases y with
          | call other given => cases hxy
          | event other => simpa using hlength

/-! ## Replies that agree -/

/-- Wherever two lists of exchanges come to the same question, they have the same reply to
it, as far as the view goes. -/
def Agree (view : Exchange I → Exchange I) (xs ys : List (Exchange I)) : Prop :=
  ∀ (n : Nat) (x y : Exchange I), xs[n]? = some x → ys[n]? = some y →
    (view x).1 = (view y).1 → view x = view y

namespace Agree

variable {view : Exchange I → Exchange I} {x y : Exchange I} {xs ys front back : List (Exchange I)}

theorem of_map_eq (h : xs.map view = ys.map view) : Agree view xs ys := by
  intro n x y hx hy _
  have hn : (xs.map view)[n]? = (ys.map view)[n]? := by rw [h]
  rw [List.getElem?_map, List.getElem?_map, hx, hy] at hn
  exact Option.some.inj hn

theorem head (h : Agree view (x :: xs) (y :: ys)) (hsame : (view x).1 = (view y).1) :
    view x = view y :=
  h 0 x y rfl rfl hsame

theorem tail (h : Agree view (x :: xs) (y :: ys)) : Agree view xs ys :=
  fun n a b ha hb => h (n + 1) a b ha hb

theorem left (h : Agree view (xs ++ front) (ys ++ back)) : Agree view xs ys := by
  intro n a b ha hb
  have hxs := (List.getElem?_eq_some_iff.mp ha).1
  have hys := (List.getElem?_eq_some_iff.mp hb).1
  refine h n a b ?_ ?_
  · rwa [List.getElem?_append_left hxs]
  · rwa [List.getElem?_append_left hys]

theorem right (h : Agree view (front ++ xs) (back ++ ys)) (hlength : front.length = back.length) :
    Agree view xs ys := by
  intro n a b ha hb
  refine h (front.length + n) a b ?_ ?_
  · rwa [List.getElem?_append_right (Nat.le_add_right _ _), Nat.add_sub_cancel_left]
  · rwa [hlength, List.getElem?_append_right (Nat.le_add_right _ _), Nat.add_sub_cancel_left]

end Agree

/-! ## Dialogues -/

namespace Dialogue

variable {view : Exchange I → Exchange I} {post : α → β → Prop}

/-- With whatever systems the two dialogues are carried on: if the replies agree, then the
transcripts are the same as far as the view goes, and the results are as in `post`. -/
def Tallies (view : Exchange I → Exchange I) (d : Dialogue I α) (e : Dialogue I β)
    (post : α → β → Prop) : Prop :=
  ∀ (σ τ : Type) (here : System I σ) (there : System I τ) (s : σ) (t : τ),
    Agree view (exchangesOf (d.run here s).entries) (exchangesOf (e.run there t).entries) →
      (d.run here s).entries.map (Entry.seen view) =
          (e.run there t).entries.map (Entry.seen view) ∧
        post (d.run here s).value (e.run there t).value

theorem tallies_done {a : α} {b : β} (h : post a b) :
    (done a : Dialogue I α).Tallies view (done b) post :=
  fun _ _ _ _ _ _ _ => ⟨rfl, h⟩

theorem tallies_note {noted other : Event} {d : Dialogue I α} {e : Dialogue I β}
    (hevent : noted = other) (h : d.Tallies view e post) :
    (note noted d).Tallies view (note other e) post := by
  subst hevent
  intro σ τ here there s t hagree
  obtain ⟨hentries, hpost⟩ := h σ τ here there s t hagree
  exact ⟨congrArg (Entry.event noted :: ·) hentries, hpost⟩

theorem tallies_ask {r q : I.Request} {k : I.Reply r → Dialogue I α} {l : I.Reply q → Dialogue I β}
    (hsame : ∀ x y, (view ⟨r, x⟩).1 = (view ⟨q, y⟩).1)
    (h : ∀ x y, view ⟨r, x⟩ = view ⟨q, y⟩ → (k x).Tallies view (l y) post) :
    (ask r k).Tallies view (ask q l) post := by
  intro σ τ here there s t hagree
  have hreply : view ⟨r, (here.answer r s).1⟩ = view ⟨q, (there.answer q t).1⟩ :=
    hagree.head (hsame _ _)
  obtain ⟨hentries, hpost⟩ := h _ _ hreply σ τ here there _ _ hagree.tail
  exact ⟨List.cons_eq_cons.mpr ⟨Entry.seen_call hreply, hentries⟩, hpost⟩

/-- Two tallying dialogues at the front of longer transcripts: the fronts are the same, and
the replies go on to agree behind them. -/
theorem Tallies.front {d : Dialogue I α} {e : Dialogue I β} (h : d.Tallies view e post)
    {here : System I σ} {there : System I τ} {s : σ} {t : τ} {xs ys : List (Entry I)}
    (hagree : Agree view (exchangesOf ((d.run here s).entries ++ xs))
      (exchangesOf ((e.run there t).entries ++ ys))) :
    (d.run here s).entries.map (Entry.seen view) = (e.run there t).entries.map (Entry.seen view) ∧
      post (d.run here s).value (e.run there t).value ∧
      Agree view (exchangesOf xs) (exchangesOf ys) := by
  simp only [exchangesOf_append] at hagree
  obtain ⟨hentries, hpost⟩ := h σ τ here there s t hagree.left
  exact ⟨hentries, hpost, hagree.right (length_exchangesOf_of_seen hentries)⟩

theorem Tallies.bind {d : Dialogue I α} {e : Dialogue I β} {k : α → Dialogue I γ}
    {l : β → Dialogue I δ} {mid : α → β → Prop} {post : γ → δ → Prop}
    (hd : d.Tallies view e mid) (hk : ∀ a b, mid a b → (k a).Tallies view (l b) post) :
    (d.bind k).Tallies view (e.bind l) post := by
  intro σ τ here there s t
  simp only [run_bind, List.map_append]
  intro hagree
  obtain ⟨hfirst, hmid, hrest⟩ := hd.front hagree
  obtain ⟨hsecond, hpost⟩ := hk _ _ hmid σ τ here there _ _ hrest
  exact ⟨by rw [hfirst, hsecond], hpost⟩

/-- A dialogue tallies with itself, as long as the view hides nothing. -/
theorem tallies_self (d : Dialogue I α) : d.Tallies id d Eq := by
  induction d with
  | done value => exact tallies_done rfl
  | ask request next ih =>
      refine tallies_ask (fun _ _ => rfl) fun x y hreply => ?_
      obtain rfl : x = y := eq_of_heq (Sigma.mk.inj hreply).2
      exact ih x
  | note event rest ih => exact tallies_note rfl ih

theorem Tallies.imp {d : Dialogue I α} {e : Dialogue I β} {weaker : α → β → Prop}
    (h : d.Tallies view e post) (himp : ∀ a b, post a b → weaker a b) :
    d.Tallies view e weaker :=
  fun σ τ here there s t hagree =>
    ⟨(h σ τ here there s t hagree).1, himp _ _ (h σ τ here there s t hagree).2⟩

end Dialogue

/-! ## Backends -/

namespace Backend

/-- Opening came to the same error, or to editors that are alike. -/
inductive OpenedAlike (alike : E → E → Prop) : Except Error E → Except Error E → Prop where
  | error (error : Error) : OpenedAlike alike (.error error) (.error error)
  | ok {editor other : E} (h : alike editor other) : OpenedAlike alike (.ok editor) (.ok other)

def WorkedAlike (alike : E → E → Prop) (worked others : Except Error Unit × E) : Prop :=
  worked.1 = others.1 ∧ alike worked.2 others.2

/-- As far as the view goes, what a backend does with an editor depends on nothing that
editors which are alike could differ in. -/
structure Respects (backend : Backend I E) (view : Exchange I → Exchange I)
    (alike : E → E → Prop) : Prop where
  processorCount : backend.processorCount.Tallies view backend.processorCount Eq
  currentThread : backend.currentThread.Tallies view backend.currentThread Eq
  openEditor : ∀ thread, (backend.openEditor thread).Tallies view (backend.openEditor thread)
    (OpenedAlike alike)
  select : ∀ p editor other, alike editor other →
    (backend.select p editor).Tallies view (backend.select p other) (WorkedAlike alike)
  apply : ∀ editor other, alike editor other →
    (backend.apply editor).Tallies view (backend.apply other) (WorkedAlike alike)
  close : ∀ editor other, alike editor other →
    (backend.close editor).Tallies view (backend.close other) Eq
  describeEditor : ∀ editor other, alike editor other →
    backend.describeEditor editor = backend.describeEditor other

namespace Respects

variable {backend : Backend I E} {view : Exchange I → Exchange I} {alike : E → E → Prop}

open Dialogue

/-! ## Inside an editor -/

theorem selectAll (h : backend.Respects view alike) (processors : List Nat) (editor other : E)
    (halike : alike editor other) :
    (backend.selectAll processors editor).Tallies view (backend.selectAll processors other)
      (WorkedAlike alike) := by
  induction processors generalizing editor other with
  | nil => exact tallies_done ⟨rfl, halike⟩
  | cons p processors ih =>
      refine (h.select p editor other halike).bind ?_
      rintro ⟨error | granted, kept⟩ ⟨_, held⟩ ⟨rfl, hkept⟩
      · exact tallies_done ⟨rfl, hkept⟩
      · exact ih kept held hkept

theorem applyAll (h : backend.Respects view alike) (processors : List Nat) (editor other : E)
    (halike : alike editor other) :
    (backend.applyAll processors editor).Tallies view (backend.applyAll processors other)
      (WorkedAlike alike) := by
  refine (h.selectAll processors editor other halike).bind ?_
  rintro ⟨error | granted, kept⟩ ⟨_, held⟩ ⟨rfl, hkept⟩
  · exact tallies_done ⟨rfl, hkept⟩
  · exact h.apply kept held hkept

theorem withEditor (h : backend.Respects view alike) (thread : Thread)
    {work : E → Dialogue I (Except Error Unit × E)}
    (hwork : ∀ editor other, alike editor other →
      (work editor).Tallies view (work other) (WorkedAlike alike)) :
    (backend.withEditor thread work).Tallies view (backend.withEditor thread work) Eq := by
  refine (h.openEditor thread).bind ?_
  rintro _ _ (error | hopened)
  · exact tallies_done rfl
  · refine (hwork _ _ hopened).bind ?_
    rintro ⟨result, kept⟩ ⟨_, held⟩ ⟨rfl, hkept⟩
    exact (h.close kept held hkept).bind fun _ _ _ => tallies_done rfl

/-! ## Operations -/

theorem bindThread (h : backend.Respects view alike) (thread : Thread) (p : Nat) :
    (backend.bindThread thread p).Tallies view (backend.bindThread thread p) Eq := by
  rw [bindThread_eq_withEditor]
  exact h.withEditor thread (h.applyAll [p])

theorem bindThreadTo (h : backend.Respects view alike) (thread : Thread) (mask : Mask) :
    (backend.bindThreadTo thread mask).Tallies view (backend.bindThreadTo thread mask) Eq := by
  unfold Backend.bindThreadTo
  split
  · exact tallies_done rfl
  · exact h.withEditor thread (h.applyAll mask.members)

theorem bindCurrent (h : backend.Respects view alike) (p : Nat) :
    (backend.bindCurrent p).Tallies view (backend.bindCurrent p) Eq := by
  refine h.currentThread.bind ?_
  rintro thread _ rfl
  exact h.bindThread thread p

theorem bindCurrentTo (h : backend.Respects view alike) (mask : Mask) :
    (backend.bindCurrentTo mask).Tallies view (backend.bindCurrentTo mask) Eq := by
  refine h.currentThread.bind ?_
  rintro thread _ rfl
  exact h.bindThreadTo thread mask

end Respects

end Backend

end ThreadAffinity
