import BuildReplay.Host
import BuildReplay.Proofs.Container

/-! # Handles to containers

Typed code has a container itself, and a field hands out a slot under which the host finds it. Both
lead to one part of the host's state, so it makes no difference which of them is used. Lists, maps
and cells take what they are offered through either, as far as it converts. -/

namespace BuildReplay

variable {σ H β ι γ α : Type} {κ : Type 1}

/-! ## Handles -/

/-- A handle to a container: the container as typed code has it, or a slot that it is found under.
A clone of a handle is the same handle. -/
inductive Handle (find? : Slot → Option κ) (c : κ) where
  | typed
  | erased (slot : Slot) (found : find? slot = some c)

namespace Handle

variable {find? : Slot → Option κ} {c : κ}

/-- What a handle is used for: by typed code with the container, else with the slot. -/
def use (typed : κ → α) (erased : Slot → α) : Handle find? c → α
  | .typed => typed c
  | .erased slot _ => erased slot

theorem use_eq {typed : κ → α} {erased : Slot → α}
    (h : ∀ {slot}, find? slot = some c → erased slot = typed c) (via : Handle find? c) :
    via.use typed erased = typed c := by
  cases via with
  | typed => rfl
  | erased slot found => exact h found

/-- What is observed of the container through a handle. -/
def see (observe : κ → α) : Handle find? c → Option α :=
  use (fun c => some (observe c)) fun slot => (find? slot).map observe

theorem see_eq (observe : κ → α) (via : Handle find? c) : via.see observe = some (observe c) :=
  use_eq (fun hfound => by rw [hfound]; rfl) via

/-! What is done through a handle: typed code calls the container, and the host looks the slot up. -/

variable {h : Host σ}

def append {c : Collection σ} (via : Handle h.list? c) (v : Live) : Act σ Unit :=
  via.use (·.append v) (h.append · v)

def insert {m : MapSink σ} (key : String) (via : Handle h.map? m) (v : Live) : Act σ Unit :=
  via.use (·.insert key v) (h.insert · key v)

def set {p : PropertyCell σ} (via : Handle h.property? p) (v : Live) : Act σ Unit :=
  via.use (·.set v) (h.setProperty · v)

def maybeCreate {c : NamedCollection σ} (via : Handle h.named? c) (name : String) :
    Act σ ObjectRef :=
  via.use (·.maybeCreate name) (h.maybeCreate · name)

def getByName {c : NamedCollection σ} (via : Handle h.named? c) (name : String) :
    Act σ (Option ObjectRef) :=
  via.use (fun c => .read (c.getByName name)) (h.getByName · name)

theorem append_eq {c : Collection σ} (via : Handle h.list? c) (v : Live) :
    via.append v = c.append v :=
  use_eq (fun hfound => by rw [Host.append, hfound]) via

theorem insert_eq {m : MapSink σ} (key : String) (via : Handle h.map? m) (v : Live) :
    via.insert key v = m.insert key v :=
  use_eq (fun hfound => by rw [Host.insert, hfound]) via

theorem set_eq {p : PropertyCell σ} (via : Handle h.property? p) (v : Live) : via.set v = p.set v :=
  use_eq (fun hfound => by rw [Host.setProperty, hfound]) via

theorem maybeCreate_eq {c : NamedCollection σ} (via : Handle h.named? c) (name : String) :
    via.maybeCreate name = c.maybeCreate name :=
  use_eq (fun hfound => by rw [Host.maybeCreate, hfound]) via

theorem getByName_eq {c : NamedCollection σ} (via : Handle h.named? c) (name : String) :
    via.getByName name = .read (c.getByName name) :=
  use_eq (fun hfound => by rw [Host.getByName, hfound]) via

end Handle

/-! ## Calls in order -/

/-- One call after the other, each of them with its outcome. A call that fails does not keep later
ones from being made. -/
def callAll (act : β → Act σ α) (calls : List β) : Act σ (List (Except Error α)) :=
  calls.mapM fun b => (act b).attempt

theorem callAll_nil_gives (act : β → Act σ α) (s : σ) : (callAll act []).Gives s [] s := by
  rw [callAll, List.mapM_nil]
  exact Act.pure_gives.2 ⟨rfl, rfl⟩

theorem callAll_cons_gives {act : β → Act σ α} {b : β} {calls : List β} {s s₁ s' : σ}
    {reply : Except Error α} {replies : List (Except Error α)} (hb : act b s = (reply, s₁))
    (hcalls : (callAll act calls).Gives s₁ replies s') :
    (callAll act (b :: calls)).Gives s (reply :: replies) s' := by
  rw [callAll, List.mapM_cons]
  exact Act.bind_gives.2 ⟨reply, s₁, Act.attempt_gives.2 hb,
    Act.bind_gives.2 ⟨replies, s', hcalls, Act.pure_gives.2 ⟨rfl, rfl⟩⟩⟩

/-! ## Values for lists, maps and cells -/

/-- What a container is offered: an item, by typed code, or a live value through a handle. -/
inductive Offer (H ι : Type) where
  | item (a : ι)
  | live (via : H) (v : Live)

namespace Offer

/-- The item, as far as what is offered converts to one. -/
def converted (accept : Live → Except Error ι) : Offer H ι → Except Error ι
  | item a => .ok a
  | live _ v => accept v

def accepted? (accept : Live → Except Error ι) (o : Offer H ι) : Option ι :=
  (o.converted accept).toOption

/-- How an offer is answered. -/
def reply (accept : Live → Except Error ι) (o : Offer H ι) : Except Error Unit :=
  (o.converted accept).map fun _ => ()

/-- Makes an offer: an item is put in as it is, a live value goes through its handle. -/
def make (put : ι → Act σ Unit) (offer : H → Live → Act σ Unit) : Offer H ι → Act σ Unit
  | item a => put a
  | live via v => offer via v

/-- What is offered changes the state if it converts, and else nothing. -/
theorem make_apply {accept : Live → Except Error ι} {put : ι → σ → σ}
    {offer : H → Live → Act σ Unit}
    (hoffer : ∀ via v, offer via v = do let a ← .ofExcept (accept v); .modify (put a))
    (o : Offer H ι) (s : σ) :
    o.make (fun a => .modify (put a)) offer s =
      (o.reply accept, ((o.accepted? accept).map fun a => put a s).getD s) := by
  cases o with
  | item a => rfl
  | live via v =>
      change offer via v s = _
      rw [hoffer, reply, accepted?, converted]
      cases accept v <;> rfl

end Offer

/-- Calls that each take an item, or none, leave what putting in the items leaves. -/
theorem callAll_gives_foldl {act : β → Act σ Unit} {reply : β → Except Error Unit}
    {item? : β → Option ι} {put : ι → σ → σ}
    (hact : ∀ b s, act b s = (reply b, ((item? b).map fun a => put a s).getD s))
    (calls : List β) (s : σ) :
    (callAll act calls).Gives s (calls.map reply)
      ((calls.filterMap item?).foldl (fun s a => put a s) s) := by
  induction calls generalizing s with
  | nil => exact callAll_nil_gives act s
  | cons b calls ih =>
      refine callAll_cons_gives (hact b s) ?_
      cases hb : item? b with
      | none => simpa [hb] using ih s
      | some a => simpa [hb] using ih (put a s)

/-- Between two states nothing but one part has changed, every handle to a container in it shows
what the container itself shows, and an offer that does not convert changes nothing. -/
structure Shared (find? : Slot → Option κ) (c : κ) (part : Lens σ γ)
    (accept : Live → Except Error ι) (offer : Handle find? c → Live → Act σ Unit) (s s' : σ) :
    Prop where
  rest : s' = part.set (part.get s') s
  seen : ∀ (via : Handle find? c) {α : Type} (observe : κ → σ → α),
    via.see (observe · s') = some (observe c s')
  refused : ∀ (via : Handle find? c) {v e}, accept v = .error e → (offer via v).Raises s' e s'

section Offers

variable {h : Host σ}

theorem Shared.of_modify {find? : Slot → Option κ} {c : κ} {part : Lens σ γ} {put : ι → σ → σ}
    {accept : Live → Except Error ι} {offer : Handle find? c → Live → Act σ Unit}
    (hoffer : ∀ via v, offer via v = do let a ← .ofExcept (accept v); .modify (put a))
    (f : γ → γ) (s : σ) : Shared find? c part accept offer s (part.modify f s) where
  rest := by rw [Lens.get_modify]; rfl
  seen via _ observe := via.see_eq fun c => observe c (part.modify f s)
  refused via {v e} hv := by
    rw [hoffer, hv]
    rfl

theorem Collection.callAll_gives (c : Collection σ)
    (offers : List (Offer (Handle h.list? c) c.Item)) (s : σ) :
    (callAll (Offer.make c.push Handle.append) offers).Gives s (offers.map (·.reply c.accept))
      (c.items.modify (· ++ offers.filterMap (·.accepted? c.accept)) s) := by
  rw [← foldl_append_items]
  exact callAll_gives_foldl (Offer.make_apply fun via v => via.append_eq v) offers s

theorem MapSink.callAll_gives (m : MapSink σ)
    (offers : List (String × Offer (Handle h.map? m) m.Item)) (s : σ) :
    (callAll (fun o => o.2.make (m.put o.1) (Handle.insert o.1)) offers).Gives s
      (offers.map (·.2.reply m.accept))
      (m.entries.modify (fun d => (offers.filterMap fun o =>
        (o.2.accepted? m.accept).map (o.1, ·)).foldl (fun d e => d.insert e.1 e.2) d) s) := by
  rw [← foldl_insert_entries]
  refine callAll_gives_foldl (fun o s => ?_) offers s
  refine (Offer.make_apply (fun via v => via.insert_eq o.1 v) o.2 s).trans ?_
  rw [Option.map_map]
  rfl

theorem PropertyCell.callAll_gives (p : PropertyCell σ)
    (offers : List (Offer (Handle h.property? p) p.Item)) (s : σ) :
    (callAll (Offer.make p.setItem Handle.set) offers).Gives s (offers.map (·.reply p.accept))
      (p.value.modify (fun a? => (offers.filterMap (·.accepted? p.accept)).getLast?.or a?) s) := by
  rw [← foldl_set_value]
  exact callAll_gives_foldl (Offer.make_apply fun via v => via.set_eq v) offers s

end Offers

end BuildReplay
