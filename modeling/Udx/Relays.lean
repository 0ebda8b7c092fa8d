/-
# Relay links

A stream that relays to another is in the other's table of relaying streams,
and closing either takes the link apart. The table is keyed by local id. The
links are consistent between events, and no close touches a closed stream or
a destroyed table, in every run where a stream that starts to relay is open
and no other of its id (in the low 31 bits) relays to its destination, and no
stream closes while one that relays to it is in the callbacks of its own
close, or while the one it relays to is closed.

Key definitions: `Linkage`, `Linked`, `Consistent`, `RelaysSound`.
Key theorems: `consistent`, `consistent_closed_source`.
-/
import Udx.Lists

namespace Udx.Registry

open Serial

/-- The part of the state that relay links are about. -/
structure Linkage where
  ids : ℕ → SeqNo
  closed : ℕ → Bool
  relayed : ℕ → Bool
  relayTo : ℕ → Option ℕ
  relaying : ℕ → Cirbuf
  nstreams : ℕ
  stack : List Frame

def State.linkage (u : State) : Linkage :=
  { ids := u.localId, closed := fun s => (u.streams s).closed,
    relayed := fun s => (u.streams s).relayed, relayTo := fun s => (u.streams s).relayTo,
    relaying := fun s => (u.streams s).relaying, nstreams := u.nstreams, stack := u.stack }

namespace Linkage

/-- Stream `s` is open, or still in the callbacks of its close. -/
def Live (r : Linkage) (s : ℕ) : Prop := r.closed s = false ∨ .clearing s ∈ r.stack

/-- `close_stream_internal` of stream `d` is not over. -/
def Closing (r : Linkage) (d : ℕ) : Prop := ∃ f ∈ r.stack, f.closing = some d

/-- The slot of stream `s` in the table of stream `d`. -/
def slot (r : Linkage) (d s : ℕ) : ℕ := Cirbuf.index (r.relaying d).size (r.ids s)

/-- The loop of the close of `d` has visited stream `s`. -/
def Visited (r : Linkage) (d s : ℕ) : Prop := ∃ i, .relaying d i ∈ r.stack ∧ r.slot d s < i

/-- The close of `d`, if it has begun, will come to stream `s`. -/
def Ahead (r : Linkage) (d s : ℕ) : Prop :=
  r.closed d = false ∨ .clearing d ∈ r.stack ∨ ∃ i, .relaying d i ∈ r.stack ∧ i ≤ r.slot d s

end Linkage

/-- The frame above does not close the stream of the one below, nor one that a
stream in the callbacks of its close relays to. -/
def Apart (relayTo : ℕ → Option ℕ) (f g : Frame) : Prop :=
  ∀ d, f.closing = some d → g.closing ≠ some d ∧ ∀ c, g = .clearing c → relayTo c ≠ some d

structure Linked (r : Linkage) : Prop where
  /-- The tables in use are well formed. -/
  table : ∀ {d}, r.closed d = false ∨ r.Closing d →
    (r.relaying d).live = true ∧ Cirbuf.WF r.ids (r.relaying d)
  /-- A link from the stream that relays. -/
  target : ∀ {s d}, r.Live s → r.relayTo s = some d →
    d < r.nstreams ∧ r.relayed s = true ∧ (r.relaying d).Stored s ∧ r.Ahead d s
  /-- A link from the table it is in. -/
  source : ∀ {s d}, (r.relaying d).Stored s →
    s < r.nstreams ∧ (r.Live s ∧ r.relayTo s = some d ∨ r.Visited d s)
  stack : r.stack.Pairwise (Apart r.relayTo)
  framed : ∀ {f s}, f ∈ r.stack → f.closing = some s → r.closed s = true
  /-- What a stream in the callbacks of its close relays to is open. -/
  aims : ∀ {s d}, .clearing s ∈ r.stack → r.relayTo s = some d → d ≠ s → r.closed d = false
  fresh : ∀ {s}, r.nstreams ≤ s → r.closed s = false ∧ r.relayTo s = none ∧
    ∀ v, ¬ (r.relaying s).Stored v

/-! ### Operations on links -/

namespace Linkage

/-- Stream `s` closes, up to its callbacks. -/
def close (s : ℕ) (r : Linkage) : Linkage :=
  { r with closed := Function.update r.closed s true, stack := .user :: .clearing s :: r.stack }

/-- Its link to the stream it relays to is taken apart. -/
def unlink (s : ℕ) (rest : List Frame) (r : Linkage) : Linkage :=
  { r with
    relaying :=
      match r.relayTo s with
      | none => r.relaying
      | some d => Function.update r.relaying d ((r.relaying d).remove r.ids (r.ids s))
    stack := .relaying s 0 :: rest }

/-- The close of stream `s` is over. -/
def finish (s : ℕ) (rest : List Frame) (r : Linkage) : Linkage :=
  { r with
    relaying := Function.update r.relaying s (r.relaying s).destroy
    stack := rest }

/-- Stream `s` starts to relay to stream `d`. -/
def relay (s d : ℕ) (r : Linkage) : Linkage :=
  { r with
    relayed := Function.update r.relayed s true
    relayTo := Function.update r.relayTo s (some d)
    relaying := Function.update r.relaying d ((r.relaying d).set r.ids s) }

/-- A new stream. -/
def init (id : SeqNo) (r : Linkage) : Linkage :=
  { r with
    ids := Function.update r.ids r.nstreams id
    closed := Function.update r.closed r.nstreams false
    relayed := Function.update r.relayed r.nstreams false
    relayTo := Function.update r.relayTo r.nstreams none
    relaying := Function.update r.relaying r.nstreams (.init 2)
    nstreams := r.nstreams + 1 }

end Linkage

namespace Linked

variable {r : Linkage} {s d c i : ℕ} {f : Frame} {rest : List Frame}

/-- A closed stream whose close is over has nothing in its table. -/
theorem gone (h : Linked r) (hc : r.closed d = true) (hover : ¬ r.Closing d) {v : ℕ} :
    ¬ (r.relaying d).Stored v := by
  intro hv
  obtain ⟨-, ⟨hlive, hto⟩ | ⟨i, hi, -⟩⟩ := h.source hv
  · obtain ⟨-, -, -, ha | ha | ⟨i, hi, -⟩⟩ := h.target hlive hto
    · rw [hc] at ha
      cases ha
    · exact hover ⟨_, ha, rfl⟩
    · exact hover ⟨_, hi, rfl⟩
  · exact hover ⟨_, hi, rfl⟩

/-- Frames that close nothing come and go. -/
theorem congr_stack (h : Linked r) {stack : List Frame}
    (hmem : ∀ f, f.closing ≠ none → (f ∈ stack ↔ f ∈ r.stack))
    (hp : stack.Pairwise (Apart r.relayTo)) : Linked { r with stack := stack } := by
  have hclear : ∀ s, Frame.clearing s ∈ stack ↔ .clearing s ∈ r.stack := fun s =>
    hmem _ (by simp [Frame.closing])
  have hrelay : ∀ s i, Frame.relaying s i ∈ stack ↔ .relaying s i ∈ r.stack := fun s i =>
    hmem _ (by simp [Frame.closing])
  have hclosing : ∀ d, ({ r with stack := stack } : Linkage).Closing d ↔ r.Closing d := by
    intro d
    refine ⟨?_, ?_⟩ <;> rintro ⟨f, hf, hd⟩
    · exact ⟨f, (hmem f (by simp [hd])).mp hf, hd⟩
    · exact ⟨f, (hmem f (by simp [hd])).mpr hf, hd⟩
  refine ⟨fun {d} hd => h.table (hd.imp_right (hclosing d).mp), fun {s d} hs hto => ?_,
    fun {s d} hs => ?_, hp, fun {f s} hf hs => ?_, fun {s d} hs => h.aims ((hclear s).mp hs), h.fresh⟩
  · obtain ⟨hd, hr, hst, ha⟩ := h.target (hs.imp_right (hclear s).mp) hto
    refine ⟨hd, hr, hst, ha.imp_right fun ha => ?_⟩
    rcases ha with ha | ⟨i, hi, hle⟩
    · exact .inl ((hclear d).mpr ha)
    · exact .inr ⟨i, (hrelay d i).mpr hi, hle⟩
  · obtain ⟨hlt, ⟨hl, hto⟩ | ⟨i, hi, hle⟩⟩ := h.source hs
    · exact ⟨hlt, .inl ⟨hl.imp_right (hclear s).mpr, hto⟩⟩
    · exact ⟨hlt, .inr ⟨i, (hrelay d i).mpr hi, hle⟩⟩
  · exact h.framed ((hmem f (by simp [hs])).mp hf) hs

theorem push (h : Linked r) (hf : f.closing = none) : Linked { r with stack := f :: r.stack } := by
  refine h.congr_stack (fun g hg => ?_) (List.pairwise_cons.mpr ⟨fun g _ d hd => ?_, h.stack⟩)
  · rw [List.mem_cons]
    exact ⟨fun hm => hm.resolve_left fun e => hg (e ▸ hf), .inr⟩
  · rw [hf] at hd
    cases hd

theorem pop (h : Linked r) (hs : r.stack = f :: rest) (hf : f.closing = none) :
    Linked { r with stack := rest } := by
  refine h.congr_stack (fun g hg => ?_) ?_
  · rw [hs, List.mem_cons]
    exact ⟨.inr, fun hm => hm.resolve_left fun e => hg (e ▸ hf)⟩
  · have hp := h.stack
    rw [hs] at hp
    exact (List.pairwise_cons.mp hp).2

/-- A stream closes that is open and relays to no closed one, and to which no
stream relays that is in the callbacks of its own close. -/
theorem close (h : Linked r) (hs : s < r.nstreams) (hc : r.closed s = false)
    (hcl : ∀ c, .clearing c ∈ r.stack → r.relayTo c ≠ some s)
    (hto : ∀ d, r.relayTo s = some d → r.closed d = false) : Linked (r.close s) := by
  have hno : ¬ r.Closing s := by
    rintro ⟨f, hf, hd⟩
    rw [h.framed hf hd] at hc
    cases hc
  have hold : ∀ {x}, x ≠ s → (r.close s).closed x = r.closed x := fun hx =>
    Function.update_of_ne hx ..
  have hmem : ∀ {g : Frame}, g ∈ (r.close s).stack ↔ g = .user ∨ g = .clearing s ∨ g ∈ r.stack := by
    intro g
    unfold Linkage.close
    simp only [List.mem_cons]
  have hrelaying : ∀ {d i}, Frame.relaying d i ∈ (r.close s).stack ↔ .relaying d i ∈ r.stack := by
    intro d i
    simp [hmem]
  have hlive : ∀ {x}, (r.close s).Live x ↔ r.Live x := by
    intro x
    unfold Linkage.Live
    by_cases hx : x = s
    · subst hx
      simp [hmem, hc]
    · rw [hold hx, hmem]
      simp [hx]
  refine ⟨fun {d} hd => ?_, fun {x d} hx hto => ?_, fun {x d} hx => ?_, ?_,
    fun {f x} hf hx => ?_, fun {x d} hx hxd hne => ?_, fun {x} hx => ?_⟩
  · refine h.table ?_
    by_cases hd' : d = s
    · exact .inl (hd' ▸ hc)
    · rw [hold hd'] at hd
      refine hd.imp_right ?_
      rintro ⟨f, hf, hfd⟩
      rcases hmem.mp hf with rfl | rfl | hf
      · cases hfd
      · exact absurd (Option.some.inj hfd).symm hd'
      · exact ⟨f, hf, hfd⟩
  · obtain ⟨hlt, hr, hst, ha⟩ := h.target (hlive.mp hx) hto
    refine ⟨hlt, hr, hst, ?_⟩
    unfold Linkage.Ahead
    by_cases hd : d = s
    · exact .inr (.inl (hmem.mpr (.inr (.inl (by rw [hd])))))
    · rw [hold hd]
      rcases ha with ha | ha | ⟨i, hi, hle⟩
      · exact .inl ha
      · exact .inr (.inl (hmem.mpr (.inr (.inr ha))))
      · exact .inr (.inr ⟨i, hrelaying.mpr hi, hle⟩)
  · obtain ⟨hlt, ⟨hl, hto⟩ | ⟨i, hi, hle⟩⟩ := h.source hx
    · exact ⟨hlt, .inl ⟨hlive.mpr hl, hto⟩⟩
    · exact ⟨hlt, .inr ⟨i, hrelaying.mpr hi, hle⟩⟩
  · refine List.pairwise_cons.mpr ⟨fun g _ d hd => (by cases hd), ?_⟩
    refine List.pairwise_cons.mpr ⟨fun g hg d hd => ?_, h.stack⟩
    obtain rfl := Option.some.inj hd
    exact ⟨fun hgd => hno ⟨g, hg, hgd⟩, fun c hgc => hcl c (hgc ▸ hg)⟩
  · rcases hmem.mp hf with rfl | rfl | hf
    · cases hx
    · obtain rfl := Option.some.inj hx
      exact Function.update_self ..
    · by_cases hxs : x = s
      · rw [hxs]
        exact Function.update_self ..
      · rw [hold hxs]
        exact h.framed hf hx
  · rcases hmem.mp hx with he | he | hold'
    · cases he
    · obtain rfl := Frame.clearing.inj he
      rw [hold hne]
      exact hto d hxd
    · have hds : d ≠ s := by
        rintro rfl
        exact hcl x hold' hxd
      rw [hold hds]
      exact h.aims hold' hxd hne
  · have hne : x ≠ s := by
      rintro rfl
      exact absurd hx (Nat.not_le.mpr hs)
    rw [hold hne]
    exact h.fresh hx

/-- What is closed below the frame on top is not what the frame closes. -/
theorem top (h : Linked r) (hs : r.stack = f :: rest) {g : Frame} (hg : g ∈ rest) {d : ℕ}
    (hf : f.closing = some d) :
    g.closing ≠ some d ∧ ∀ c, g = .clearing c → r.relayTo c ≠ some d := by
  have hp := h.stack
  rw [hs] at hp
  exact (List.pairwise_cons.mp hp).1 g hg d hf

theorem below (h : Linked r) (hs : r.stack = f :: rest) : rest.Pairwise (Apart r.relayTo) := by
  have hp := h.stack
  rw [hs] at hp
  exact (List.pairwise_cons.mp hp).2

/-- The table a stream is in, of what it relays to, is in use. -/
theorem target_table (h : Linked r) (hl : r.Live s) (hto : r.relayTo s = some d) :
    (r.relaying d).live = true ∧ Cirbuf.WF r.ids (r.relaying d) := by
  obtain ⟨-, -, -, ha | ha | ⟨i, hi, -⟩⟩ := h.target hl hto
  · exact h.table (.inl ha)
  · exact h.table (.inr ⟨_, ha, rfl⟩)
  · exact h.table (.inr ⟨_, hi, rfl⟩)

/-- A stream that closes leaves the table it is in. -/
theorem unlink (h : Linked r) (hs : r.stack = .clearing s :: rest) : Linked (r.unlink s rest) := by
  have htop : ∀ {g}, g ∈ rest → g.closing ≠ some s := fun hg => (h.top hs hg rfl).1
  have hmem : ∀ {g : Frame}, g ∈ r.stack ↔ g = .clearing s ∨ g ∈ rest := by simp [hs]
  have hmem' : ∀ {g : Frame}, g ∈ (r.unlink s rest).stack ↔ g = .relaying s 0 ∨ g ∈ rest := by
    simp [Linkage.unlink]
  have hlive_s : r.Live s := .inr (hmem.mpr (.inl rfl))
  have hlive : ∀ {x}, (r.unlink s rest).Live x ↔ r.Live x ∧ x ≠ s := by
    intro x
    unfold Linkage.Live
    rw [hmem, hmem']
    have hclosed : r.closed s = true := h.framed (hmem.mpr (.inl rfl)) rfl
    by_cases hx : x = s
    · subst hx
      have hno : Frame.clearing x ∉ rest := fun hm => htop hm rfl
      simp [Linkage.unlink, hclosed, hno]
    · simp [Linkage.unlink, hx]
  -- the tables lose the stream, and keep their size
  have htable : ∀ d, ((r.unlink s rest).relaying d).size = (r.relaying d).size ∧
      ((r.unlink s rest).relaying d).live = (r.relaying d).live ∧
      (Cirbuf.WF r.ids (r.relaying d) → Cirbuf.WF r.ids ((r.unlink s rest).relaying d)) ∧
      ∀ v, ((r.unlink s rest).relaying d).Stored v ↔
        (r.relaying d).Stored v ∧ (r.relayTo s = some d → v ≠ s) := by
    intro d
    unfold Linkage.unlink
    dsimp only
    cases hto : r.relayTo s with
    | none => simp
    | some e =>
      dsimp only
      by_cases hd : d = e
      · subst hd
        have hwf := (h.target_table hlive_s hto).2
        obtain ⟨-, -, hst, -⟩ := h.target hlive_s hto
        rw [Function.update_self, Cirbuf.remove_size, Cirbuf.remove_live]
        refine ⟨rfl, rfl, fun _ => (hwf.remove _).1, fun v => ?_⟩
        rw [(hwf.remove _).2]
        refine and_congr_right fun hv => ⟨?_, ?_⟩
        · rintro hk - rfl
          exact hk rfl
        · exact fun hne hk => hne rfl (hwf.unique hv hst hk)
      · rw [Function.update_of_ne hd]
        simp [Ne.symm hd]
  have hslot : ∀ d x, (r.unlink s rest).slot d x = r.slot d x := by
    intro d x
    unfold Linkage.slot
    rw [(htable d).1]
    rfl
  refine ⟨fun {d} hd => ?_, fun {x d} hx hto => ?_, fun {x d} hx => ?_, ?_,
    fun {f x} hf hx => ?_, fun {x d} hx hxd hne => ?_, fun {x} hx => ?_⟩
  · have hold : r.closed d = false ∨ r.Closing d := by
      refine hd.imp_right ?_
      rintro ⟨f, hf, hfd⟩
      rcases hmem'.mp hf with rfl | hf
      · exact ⟨_, hmem.mpr (.inl rfl), hfd⟩
      · exact ⟨f, hmem.mpr (.inr hf), hfd⟩
    obtain ⟨hl, hwf⟩ := h.table hold
    exact ⟨(htable d).2.1.trans hl, (htable d).2.2.1 hwf⟩
  · obtain ⟨hl, hxs⟩ := hlive.mp hx
    obtain ⟨hlt, hr, hst, ha⟩ := h.target hl hto
    refine ⟨hlt, hr, ((htable d).2.2.2 x).mpr ⟨hst, fun _ => hxs⟩, ?_⟩
    rcases ha with ha | ha | ⟨i, hi, hle⟩
    · exact .inl ha
    · rcases hmem.mp ha with he | ha
      · obtain rfl := Frame.clearing.inj he
        exact .inr (.inr ⟨0, hmem'.mpr (.inl rfl), Nat.zero_le _⟩)
      · exact .inr (.inl (hmem'.mpr (.inr ha)))
    · rcases hmem.mp hi with he | hi
      · cases he
      · exact .inr (.inr ⟨i, hmem'.mpr (.inr hi), by rw [hslot]; exact hle⟩)
  · obtain ⟨hst, hne⟩ := ((htable d).2.2.2 x).mp hx
    obtain ⟨hlt, ⟨hl, hto⟩ | ⟨i, hi, hle⟩⟩ := h.source hst
    · refine ⟨hlt, .inl ⟨hlive.mpr ⟨hl, ?_⟩, hto⟩⟩
      rintro rfl
      exact hne hto rfl
    · rcases hmem.mp hi with he | hi
      · cases he
      · exact ⟨hlt, .inr ⟨i, hmem'.mpr (.inr hi), by rw [hslot]; exact hle⟩⟩
  · exact List.pairwise_cons.mpr ⟨fun g hg d hd => h.top hs hg hd, h.below hs⟩
  · rcases hmem'.mp hf with rfl | hf
    · obtain rfl := Option.some.inj hx
      exact h.framed (hmem.mpr (.inl rfl)) rfl
    · exact h.framed (hmem.mpr (.inr hf)) hx
  · rcases hmem'.mp hx with hx | hx
    · cases hx
    · exact h.aims (hmem.mpr (.inr hx)) hxd hne
  · obtain ⟨hc, hto, hempty⟩ := h.fresh hx
    exact ⟨hc, hto, fun v hv => hempty v (((htable x).2.2.2 v).mp hv).1⟩

/-- The loop passes slot `i`, whose stream, if there is one, is open and loses
its link. -/
theorem turn (h : Linked r) (hs : r.stack = .relaying s i :: rest) {t : ℕ → Option ℕ}
    (hkeep : ∀ x, (r.relaying s).values i ≠ some x → t x = r.relayTo x)
    (hdrop : ∀ {c}, (r.relaying s).values i = some c → t c = none) :
    Linked { r with relayTo := t, stack := .relaying s (i + 1) :: rest } := by
  have hmem : ∀ {g : Frame}, g ∈ r.stack ↔ g = .relaying s i ∨ g ∈ rest := by simp [hs]
  have hclear : ∀ {x}, Frame.clearing x ∈ Frame.relaying s (i + 1) :: rest ↔
      .clearing x ∈ r.stack := by simp [hs]
  have hclosed : r.closed s = true := h.framed (hmem.mpr (.inl rfl)) rfl
  have htable := (h.table (.inr ⟨_, hmem.mpr (.inl rfl), rfl⟩ : r.closed s = false ∨ r.Closing s)).2
  -- links only go
  have hsub : ∀ {x d}, t x = some d →
      r.relayTo x = some d ∧ (r.relaying s).values i ≠ some x := by
    intro x d hto
    have hne : (r.relaying s).values i ≠ some x := by
      intro hc
      rw [hdrop hc] at hto
      cases hto
    exact ⟨(hkeep x hne).symm.trans hto, hne⟩
  have hslot : ∀ {x}, (r.relaying s).Stored x → (r.relaying s).values i ≠ some x →
      r.slot s x ≠ i := by
    intro x hx hne he
    exact hne (he ▸ htable.value hx)
  refine ⟨fun {d} hd => ?_, fun {x d} hx hto => ?_, fun {x d} hx => ?_, ?_,
    fun {f x} hf hx => ?_, fun {x d} hx hxd hne => ?_, fun {x} hx => ?_⟩
  · refine h.table (hd.imp_right ?_)
    rintro ⟨f, hf, hfd⟩
    rcases List.mem_cons.mp hf with rfl | hf
    · exact ⟨_, hmem.mpr (.inl rfl), hfd⟩
    · exact ⟨f, hmem.mpr (.inr hf), hfd⟩
  · obtain ⟨hto, hne⟩ := hsub hto
    obtain ⟨hlt, hr, hst, ha⟩ := h.target (hx.imp_right hclear.mp) hto
    refine ⟨hlt, hr, hst, ?_⟩
    rcases ha with ha | ha | ⟨j, hj, hle⟩
    · exact .inl ha
    · exact .inr (.inl (hclear.mpr ha))
    · rcases hmem.mp hj with he | hj
      · obtain ⟨rfl, rfl⟩ := Frame.relaying.inj he
        have hpass := hslot hst hne
        exact .inr (.inr ⟨j + 1, List.mem_cons_self,
          Nat.lt_of_le_of_ne hle fun e => hpass e.symm⟩)
      · exact .inr (.inr ⟨j, List.mem_cons_of_mem _ hj, hle⟩)
  · obtain ⟨hlt, hsrc⟩ := h.source hx
    refine ⟨hlt, ?_⟩
    rcases hsrc with ⟨hl, hto⟩ | ⟨j, hj, hle⟩
    · by_cases hne : (r.relaying s).values i = some x
      · -- it is visited now
        obtain ⟨-, -, hst, -⟩ := h.target hl hto
        have hi : i = r.slot s x := htable.slot hne
        have hd : d = s := by
          obtain ⟨-, ⟨-, hto'⟩ | ⟨j, hj, hlt'⟩⟩ := h.source ⟨i, hne⟩
          · exact Option.some.inj (hto.symm.trans hto')
          · rcases hmem.mp hj with he | hj
            · obtain ⟨-, rfl⟩ := Frame.relaying.inj he
              exact absurd hlt' (by rw [← hi]; exact Nat.lt_irrefl _)
            · exact absurd rfl (h.top hs hj rfl).1
        subst hd
        exact .inr ⟨i + 1, List.mem_cons_self, hi ▸ Nat.lt_succ_self _⟩
      · exact .inl ⟨hl.imp_right hclear.mpr, (hkeep x hne).trans hto⟩
    · rcases hmem.mp hj with he | hj
      · obtain ⟨rfl, rfl⟩ := Frame.relaying.inj he
        exact .inr ⟨j + 1, List.mem_cons_self, Nat.lt_succ_of_lt hle⟩
      · exact .inr ⟨j, List.mem_cons_of_mem _ hj, hle⟩
  · have happart : ∀ {f g}, Apart r.relayTo f g → Apart t f g := fun ha d hd =>
      ⟨(ha d hd).1, fun c hc hto => (ha d hd).2 c hc (hsub hto).1⟩
    refine List.pairwise_cons.mpr ⟨fun g hg => ?_, (h.below hs).imp happart⟩
    exact happart (f := .relaying s i) fun d hd => h.top hs hg hd
  · rcases List.mem_cons.mp hf with rfl | hf
    · obtain rfl := Option.some.inj hx
      exact hclosed
    · exact h.framed (hmem.mpr (.inr hf)) hx
  · exact h.aims (hclear.mp hx) (hsub hxd).1 hne
  · obtain ⟨hc, hto, hempty⟩ := h.fresh hx
    refine ⟨hc, ?_, hempty⟩
    cases hx' : t x with
    | none => exact hx'
    | some d =>
      have := (hsub hx').1
      rw [hto] at this
      cases this

/-- The stream the loop finds in a slot is open and relays to the one that
closes. -/
theorem found (h : Linked r) (hs : r.stack = .relaying s i :: rest)
    (hc : (r.relaying s).values i = some c) :
    c < r.nstreams ∧ r.closed c = false ∧ r.relayTo c = some s := by
  have hmem : Frame.relaying s i ∈ r.stack := by rw [hs]; exact List.mem_cons_self
  have htable := (h.table (.inr ⟨_, hmem, rfl⟩ : r.closed s = false ∨ r.Closing s)).2
  obtain ⟨hlt, ⟨hl, hto⟩ | ⟨j, hj, hle⟩⟩ := h.source ⟨i, hc⟩
  · refine ⟨hlt, hl.resolve_right fun hcl => ?_, hto⟩
    rw [hs] at hcl
    rcases List.mem_cons.mp hcl with he | hcl
    · cases he
    · exact (h.top hs hcl rfl).2 c rfl hto
  · rw [hs] at hj
    rcases List.mem_cons.mp hj with he | hj
    · obtain ⟨-, rfl⟩ := Frame.relaying.inj he
      have hi : j = r.slot s c := htable.slot hc
      exact absurd hle (by rw [← hi]; exact Nat.lt_irrefl _)
    · exact absurd rfl (h.top hs hj rfl).1

/-- The loop is over, and the table goes. -/
theorem finish (h : Linked r) (hs : r.stack = .relaying s i :: rest)
    (hi : (r.relaying s).size ≤ i) : Linked (r.finish s rest) := by
  have hmem : ∀ {g : Frame}, g ∈ r.stack ↔ g = .relaying s i ∨ g ∈ rest := by simp [hs]
  have hclear : ∀ {x}, Frame.clearing x ∈ rest ↔ .clearing x ∈ r.stack := by simp [hs]
  have hclosed : r.closed s = true := h.framed (hmem.mpr (.inl rfl)) rfl
  have htable := (h.table (.inr ⟨_, hmem.mpr (.inl rfl), rfl⟩ : r.closed s = false ∨ r.Closing s)).2
  have hother : ∀ {d}, d ≠ s → (r.finish s rest).relaying d = r.relaying d := fun hd =>
    Function.update_of_ne hd ..
  have hself : ∀ v, ¬ ((r.finish s rest).relaying s).Stored v := by
    rintro v ⟨j, hj⟩
    unfold Linkage.finish at hj
    dsimp only at hj
    rw [Function.update_self] at hj
    cases hj
  have hslot : ∀ {d x}, d ≠ s → (r.finish s rest).slot d x = r.slot d x := by
    intro d x hd
    unfold Linkage.slot
    rw [hother hd]
    rfl
  refine ⟨fun {d} hd => ?_, fun {x d} hx hto => ?_, fun {x d} hx => ?_, h.below hs,
    fun {f x} hf hx => h.framed (hmem.mpr (.inr hf)) hx, fun {x d} hx => h.aims (hclear.mp hx),
    fun {x} hx => ?_⟩
  · have hds : d ≠ s := by
      rintro rfl
      rcases hd with hd | ⟨f, hf, hfd⟩
      · have hd' : r.closed d = false := hd
        rw [hclosed] at hd'
        cases hd'
      · exact (h.top hs hf rfl).1 hfd
    rw [hother hds]
    refine h.table (hd.imp_right ?_)
    rintro ⟨f, hf, hfd⟩
    exact ⟨f, hmem.mpr (.inr hf), hfd⟩
  · obtain ⟨hlt, hr, hst, ha⟩ := h.target (hx.imp_right hclear.mp) hto
    have hds : d ≠ s := by
      rintro rfl
      rcases ha with ha | ha | ⟨j, hj, hle⟩
      · rw [hclosed] at ha
        cases ha
      · exact (h.top hs (hclear.mpr ha) rfl).1 rfl
      · rcases hmem.mp hj with he | hj
        · obtain ⟨-, rfl⟩ := Frame.relaying.inj he
          have hlt' : r.slot d x < (r.relaying d).size := htable.index_lt _
          omega
        · exact (h.top hs hj rfl).1 rfl
    refine ⟨hlt, hr, by rw [hother hds]; exact hst, ?_⟩
    rcases ha with ha | ha | ⟨j, hj, hle⟩
    · exact .inl ha
    · exact .inr (.inl (hclear.mpr ha))
    · rcases hmem.mp hj with he | hj
      · exact absurd (Frame.relaying.inj he).1 hds
      · exact .inr (.inr ⟨j, hj, by rw [hslot hds]; exact hle⟩)
  · have hds : d ≠ s := by
      rintro rfl
      exact hself x hx
    rw [hother hds] at hx
    obtain ⟨hlt, ⟨hl, hto⟩ | ⟨j, hj, hle⟩⟩ := h.source hx
    · exact ⟨hlt, .inl ⟨hl.imp_right hclear.mpr, hto⟩⟩
    · rcases hmem.mp hj with he | hj
      · exact absurd (Frame.relaying.inj he).1 hds
      · exact ⟨hlt, .inr ⟨j, hj, by rw [hslot hds]; exact hle⟩⟩
  · obtain ⟨hc, hto, hempty⟩ := h.fresh hx
    refine ⟨hc, hto, fun v hv => ?_⟩
    by_cases hxs : x = s
    · subst hxs
      exact hself v hv
    · rw [hother hxs] at hv
      exact hempty v hv

/-- An open stream starts to relay to an open one, to which no stream relays
whose id differs from its own in the top bit at most. -/
theorem relay (h : Linked r) (hs : s < r.nstreams) (hd : d < r.nstreams)
    (hnew : r.relayed s = false) (hos : r.closed s = false) (hod : r.closed d = false)
    (hids : ∀ v, (r.relaying d).Stored v → (r.ids v).toNat % 2 ^ 31 ≠ (r.ids s).toNat % 2 ^ 31) :
    Linked (r.relay s d) := by
  have hnone : r.relayTo s = none := by
    cases hto : r.relayTo s with
    | none => rfl
    | some e =>
      obtain ⟨-, hr, -⟩ := h.target (.inl hos) hto
      rw [hnew] at hr
      cases hr
  obtain ⟨hlived, hwf⟩ := h.table (.inl hod : r.closed d = false ∨ r.Closing d)
  obtain ⟨hwf', hstored⟩ := hwf.set s fun v hv _ => hids v hv
  have hstored' : ∀ v, ((r.relaying d).set r.ids s).Stored v ↔ v = s ∨ (r.relaying d).Stored v := by
    intro v
    rw [hstored]
    exact or_congr_right ⟨And.left, fun hv => ⟨hv, fun hk => hids v hv (by rw [hk])⟩⟩
  have hself : (r.relay s d).relaying d = (r.relaying d).set r.ids s := Function.update_self ..
  have hother : ∀ {e}, e ≠ d → (r.relay s d).relaying e = r.relaying e := fun he =>
    Function.update_of_ne he ..
  have hnotd : ∀ {f}, f ∈ r.stack → f.closing ≠ some d := by
    intro f hf hfd
    have := h.framed hf hfd
    rw [hod] at this
    cases this
  have hslot : ∀ {e x}, e ≠ d → (r.relay s d).slot e x = r.slot e x := by
    intro e x he
    unfold Linkage.slot
    rw [hother he]
    rfl
  have hrelayTo : ∀ {x}, x ≠ s → (r.relay s d).relayTo x = r.relayTo x := fun hx =>
    Function.update_of_ne hx ..
  have hnots : ∀ {x}, .clearing x ∈ r.stack → x ≠ s := by
    rintro x hx rfl
    have hclosed := h.framed hx rfl
    rw [hos] at hclosed
    cases hclosed
  refine ⟨fun {e} he => ?_, fun {x e} hx hto => ?_, fun {x e} hx => ?_, ?_, h.framed,
    fun {x e} hx hxe => h.aims hx ((hrelayTo (hnots hx)).symm.trans hxe), fun {x} hx => ?_⟩
  · by_cases hed : e = d
    · subst hed
      rw [hself]
      exact ⟨(Cirbuf.set_live ..).trans hlived, hwf'⟩
    · rw [hother hed]
      exact h.table he
  · by_cases hxs : x = s
    · subst hxs
      have hed : d = e := by
        unfold Linkage.relay at hto
        dsimp only at hto
        rw [Function.update_self] at hto
        exact Option.some.inj hto
      subst hed
      refine ⟨hd, Function.update_self .., ?_, .inl hod⟩
      rw [hself]
      exact (hstored' x).mpr (.inl rfl)
    · rw [hrelayTo hxs] at hto
      obtain ⟨hlt, hr, hst, ha⟩ := h.target (s := x) hx hto
      refine ⟨hlt, (Function.update_of_ne hxs ..).trans hr, ?_, ?_⟩
      · by_cases hed : e = d
        · subst hed
          rw [hself]
          exact (hstored' x).mpr (.inr hst)
        · rw [hother hed]
          exact hst
      · by_cases hed : e = d
        · exact .inl (hed ▸ hod)
        · rcases ha with ha | ha | ⟨j, hj, hle⟩
          · exact .inl ha
          · exact .inr (.inl ha)
          · exact .inr (.inr ⟨j, hj, by rw [hslot hed]; exact hle⟩)
  · by_cases hed : e = d
    · subst hed
      rw [hself, hstored'] at hx
      rcases hx with rfl | hx
      · exact ⟨hs, .inl ⟨.inl hos, Function.update_self ..⟩⟩
      · obtain ⟨hlt, ⟨hl, hto⟩ | ⟨j, hj, -⟩⟩ := h.source hx
        · refine ⟨hlt, .inl ⟨hl, ?_⟩⟩
          rw [hrelayTo]
          · exact hto
          · rintro rfl
            rw [hnone] at hto
            cases hto
        · exact absurd rfl (hnotd hj)
    · rw [hother hed] at hx
      obtain ⟨hlt, ⟨hl, hto⟩ | ⟨j, hj, hle⟩⟩ := h.source hx
      · refine ⟨hlt, .inl ⟨hl, ?_⟩⟩
        rw [hrelayTo]
        · exact hto
        · rintro rfl
          rw [hnone] at hto
          cases hto
      · exact ⟨hlt, .inr ⟨j, hj, by rw [hslot hed]; exact hle⟩⟩
  · refine h.stack.imp_of_mem fun {f g} _ hg ha e he => ⟨(ha e he).1, fun c hc => ?_⟩
    rw [hrelayTo (hnots (hc ▸ hg))]
    exact (ha e he).2 c hc
  · obtain ⟨hc, hto, hempty⟩ := h.fresh hx
    have hx' : r.nstreams ≤ x := hx
    have hxs : x ≠ s := by omega
    have hxd : x ≠ d := by omega
    refine ⟨hc, (hrelayTo hxs).trans hto, ?_⟩
    rw [hother hxd]
    exact hempty

/-- A new stream has no links. -/
theorem init (h : Linked r) (id : SeqNo) : Linked (r.init id) := by
  obtain ⟨hcn, hton, hemptyn⟩ := h.fresh (Nat.le_refl r.nstreams)
  have hold : ∀ {x}, x ≠ r.nstreams → (r.init id).relaying x = r.relaying x ∧
      (r.init id).closed x = r.closed x ∧ (r.init id).relayTo x = r.relayTo x ∧
      (r.init id).relayed x = r.relayed x ∧ (r.init id).ids x = r.ids x := by
    intro x hx
    simp only [Linkage.init, Function.update_of_ne hx, and_self]
  have hnew : (r.init id).relaying r.nstreams = .init 2 := Function.update_self ..
  have hclosed : ∀ x, (r.init id).closed x = r.closed x := by
    intro x
    by_cases hx : x = r.nstreams
    · subst hx
      rw [hcn]
      exact Function.update_self ..
    · exact (hold hx).2.1
  have hstored : ∀ d v, ((r.init id).relaying d).Stored v ↔ (r.relaying d).Stored v := by
    intro d v
    by_cases hd : d = r.nstreams
    · subst hd
      rw [hnew]
      refine ⟨?_, fun hv => absurd hv (hemptyn v)⟩
      rintro ⟨j, hj⟩
      cases hj
    · rw [(hold hd).1]
  have hkeys : ∀ {d v}, (r.relaying d).Stored v → (r.init id).ids v = r.ids v := fun hv =>
    (hold (Nat.ne_of_lt (h.source hv).1)).2.2.2.2
  have hnotn : ∀ {f}, f ∈ r.stack → f.closing ≠ some r.nstreams := by
    intro f hf hfd
    have := h.framed hf hfd
    rw [hcn] at this
    cases this
  have hrelayTo : ∀ x, (r.init id).relayTo x = r.relayTo x := by
    intro x
    by_cases hx : x = r.nstreams
    · subst hx
      rw [hton]
      exact Function.update_self ..
    · exact (hold hx).2.2.1
  have hlive : ∀ {x}, (r.init id).Live x ↔ r.Live x := by
    intro x
    unfold Linkage.Live
    rw [hclosed]
    rfl
  have hslot : ∀ {d v}, d ≠ r.nstreams → (r.relaying d).Stored v →
      (r.init id).slot d v = r.slot d v := by
    intro d v hd hv
    unfold Linkage.slot
    rw [(hold hd).1, hkeys hv]
  refine ⟨fun {d} hd => ?_, fun {x d} hx hto => ?_, fun {x d} hx => ?_, ?_,
    fun {f x} hf hx => ?_, fun {x d} hx hxd hne => ?_, fun {x} hx => ?_⟩
  · by_cases hdn : d = r.nstreams
    · subst hdn
      rw [hnew]
      exact ⟨rfl, Cirbuf.WF.init (n := 1) (by decide)⟩
    · rw [hclosed] at hd
      obtain ⟨hl, hwf⟩ := h.table hd
      rw [(hold hdn).1]
      exact ⟨hl, hwf.congr hkeys⟩
  · rw [hrelayTo] at hto
    obtain ⟨hlt, hr, hst, ha⟩ := h.target (hlive.mp hx) hto
    have hxn : x ≠ r.nstreams := Nat.ne_of_lt (h.source hst).1
    have hdn : d ≠ r.nstreams := Nat.ne_of_lt hlt
    refine ⟨Nat.lt_succ_of_lt hlt, (hold hxn).2.2.2.1.trans hr, (hstored d x).mpr hst, ?_⟩
    unfold Linkage.Ahead
    rw [hclosed, hslot hdn hst]
    exact ha
  · rw [hstored] at hx
    obtain ⟨hlt, hsrc⟩ := h.source hx
    refine ⟨Nat.lt_succ_of_lt hlt, ?_⟩
    rw [hlive, hrelayTo]
    refine hsrc.imp_right ?_
    rintro ⟨j, hj, hle⟩
    refine ⟨j, hj, ?_⟩
    rw [hslot (fun e => hnotn hj (by rw [e]; rfl)) hx]
    exact hle
  · have hto : (r.init id).relayTo = r.relayTo := funext hrelayTo
    rw [hto]
    exact h.stack
  · rw [hclosed]
    exact h.framed hf hx
  · rw [hclosed]
    exact h.aims hx ((hrelayTo x).symm.trans hxd) hne
  · rw [hclosed, hrelayTo]
    obtain ⟨hc, hto, hempty⟩ := h.fresh (Nat.le_of_succ_le hx)
    exact ⟨hc, hto, fun v hv => hempty v ((hstored x v).mp hv)⟩

end Linked

/-! ### Steps -/

/-- Every stream that started to relay was open, and nothing in the table it
went to had its id, or one that differs from it in the top bit alone; and no
stream closed while one that relays to it was in the callbacks of its close, or
while the one it relays to was closed. -/
def RelaysSound (u : State) : Prop :=
  (∀ s d src dst key, .relayTo s d src dst key ∈ u.log → src.closed = false ∧
    ∀ v, dst.relaying.Stored v → (key v).toNat % 2 ^ 31 ≠ (key s).toNat % 2 ^ 31) ∧
  ∀ s found clearing, .streamClosed s found clearing ∈ u.log → clearing = none

/-- No close touched a closed stream, or a table that is gone. -/
def Untouched (u : State) : Prop :=
  .failed .closeTwice ∉ u.log ∧ .failed .relayClosed ∉ u.log ∧ .failed .relayTarget ∉ u.log ∧
    .failed .relayBuffer ∉ u.log

/-- What is preserved: in sound runs the links are right. -/
def Sane (u : State) : Prop := RelaysSound u → Linked u.linkage ∧ Untouched u

theorem RelaysSound.suffix {u v : State} (h : RelaysSound v) (hl : ∃ l, v.log = l ++ u.log) :
    RelaysSound u := by
  obtain ⟨l, hl⟩ := hl
  exact ⟨fun s d src dst key hm => h.1 s d src dst key (by rw [hl]; simp [hm]),
    fun s found clearing hm => h.2 s found clearing (by rw [hl]; simp [hm])⟩

theorem Untouched.note {u : State} (h : Untouched u) {e : LogEntry}
    (he : ∀ a, e = .failed a → a = .timewaitEntry) : Untouched (u.note e) := by
  have hne : ∀ {a}, a ≠ Site.timewaitEntry → .failed a ∉ u.log → .failed a ∉ (u.note e).log := by
    intro a ha hm hmem
    rcases List.mem_cons.mp hmem with heq | hmem
    · exact ha (he a heq.symm)
    · exact hm hmem
  exact ⟨hne (by decide) h.1, hne (by decide) h.2.1, hne (by decide) h.2.2.1, hne (by decide) h.2.2.2⟩

section

variable {u v : State}

theorem Sane.congr (h : Sane u) (hr : v.linkage = u.linkage) (hl : v.log = u.log) : Sane v := by
  intro hs
  obtain ⟨hlinked, hlog⟩ := h (hs.suffix ⟨[], hl⟩)
  refine ⟨hr ▸ hlinked, ?_⟩
  unfold Untouched
  rw [hl]
  exact hlog

theorem Sane.note (h : Sane u) {e : LogEntry} (he : ∀ a, e = .failed a → a = .timewaitEntry) :
    Sane (u.note e) := by
  intro hs
  obtain ⟨hlinked, hlog⟩ := h (hs.suffix ⟨[e], rfl⟩)
  exact ⟨hlinked, hlog.note he⟩

theorem Sane.check (h : Sane u) {a : Site} {p : Prop} [Decidable p] (hp : RelaysSound u → p) :
    Sane (u.check a p) := by
  unfold State.check
  split
  · exact h
  · next hno => exact fun hs => absurd (hp (hs.suffix ⟨[_], rfl⟩)) hno

theorem setStream_linkage (u : State) {s : ℕ} {f : Stream → Stream} {c w d q : Bool} {k : Option ℕ}
    (hf : f (u.streams s) = { u.streams s with
      connected := c, destroying := d, timewaitWanted := w, socket := k, destroyQueued := q }) :
    (u.setStream s f).linkage = u.linkage := by
  unfold State.linkage State.setStream State.localId
  congr 1 <;> funext x <;> by_cases hx : x = s <;> simp [hx, hf]

/-- Links do not depend on what a stream is connected to, nor on whether it is
being destroyed. -/
theorem Sane.setStream (h : Sane u) (s : ℕ) {f : Stream → Stream} {c w d q : Bool} {k : Option ℕ}
    (hf : f (u.streams s) = { u.streams s with
      connected := c, destroying := d, timewaitWanted := w, socket := k, destroyQueued := q }) :
    Sane (u.setStream s f) :=
  h.congr (setStream_linkage u hf) rfl

theorem Sane.push (h : Sane u) {f : Frame} (hf : f.closing = none) : Sane (u.push f) := by
  intro hs
  obtain ⟨hlinked, hlog⟩ := h hs
  exact ⟨hlinked.push hf, hlog⟩

theorem Sane.pop (h : Sane u) {f : Frame} {rest : List Frame} (hu : u.stack = f :: rest)
    (hf : f.closing = none) : Sane { u with stack := rest } := by
  intro hs
  obtain ⟨hlinked, hlog⟩ := h hs
  exact ⟨hlinked.pop hu hf, hlog⟩

theorem setHead_linkage (socket x : Option ℕ) (u : State) :
    (u.setHead socket x).linkage = u.linkage := by
  cases socket <;> rfl

theorem Sane.setStreamSocket (h : Sane u) (s k : ℕ) : Sane (setStreamSocket s k u) := by
  unfold Registry.setStreamSocket
  split
  · exact h
  · dsimp only
    have hunlink : Sane (unlinkStream (u.streams s).socket s u) :=
      h.congr (setHead_linkage _ _ _) (setHead_log _ _ _)
    exact (hunlink.setStream s (f := fun x => { x with socket := some k }) rfl).congr
      (setHead_linkage _ _ _) (setHead_log _ _ _)

theorem Sane.timewaitTimeout (h : Sane u) (t : ℕ) : Sane (timewaitTimeout t u) := by
  unfold Registry.timewaitTimeout State.check
  dsimp only
  split
  · exact h.congr rfl rfl
  · exact (h.note (e := .failed .timewaitEntry) (by simp)).congr rfl rfl

/-! ### Closing -/

theorem closeEntry_linkage (s : ℕ) (u : State) : (closeEntry s u).linkage = u.linkage := by
  unfold closeEntry
  dsimp only
  split <;> rfl

theorem closeStreamInternal_linkage (s : ℕ) (u : State) :
    (closeStreamInternal s u).linkage = u.linkage.close s := by
  have hmark : ∀ v : State, (markClosed s v).linkage =
      { v.linkage with closed := Function.update v.linkage.closed s true } := by
    intro v
    unfold markClosed State.note State.linkage State.setStream State.localId
    congr 1 <;> funext x <;> by_cases hx : x = s <;> simp [hx]
  have hpush : ∀ (v : State) f, (v.push f).linkage = { v.linkage with stack := f :: v.linkage.stack } :=
    fun _ _ => rfl
  have hcheck : (u.check .closeTwice ((u.streams s).closed = false)).linkage = u.linkage := by
    unfold State.check
    split <;> rfl
  unfold closeStreamInternal
  dsimp only
  rw [hpush, hpush, closeEntry_linkage]
  unfold unlinkStream
  rw [setHead_linkage]
  have hlink : ∀ (v : State) l, ({ v with streamLink := l } : State).linkage = v.linkage :=
    fun _ _ => rfl
  rw [hlink, hmark, hcheck]
  rfl

theorem clearingRelay_none {s : ℕ} (h : clearingRelay s u = none) :
    (∀ c, .clearing c ∈ u.stack → (u.streams c).relayTo ≠ some s) ∧
      ∀ d, (u.streams s).relayTo = some d → (u.streams d).closed = false := by
  unfold clearingRelay at h
  rw [Option.or_eq_none_iff, List.findSome?_eq_none_iff] at h
  refine ⟨fun c hc hto => ?_, fun d hd => ?_⟩
  · have hno := h.1 _ hc
    simp [hto] at hno
  · have hno := h.2
    rw [hd] at hno
    simpa [Option.filter] using hno

theorem Sane.closeStreamInternal (h : Sane u) {s : ℕ}
    (hopen : RelaysSound u → s < u.nstreams ∧ (u.streams s).closed = false) : Sane (closeStreamInternal s u) := by
  have hlog : (Registry.closeStreamInternal s u).log =
      .streamClosed s ((u.check .closeTwice ((u.streams s).closed = false)).streamTable.get
        ((u.check .closeTwice ((u.streams s).closed = false)).localId s))
        (clearingRelay s (u.check .closeTwice ((u.streams s).closed = false))) ::
      (u.check .closeTwice ((u.streams s).closed = false)).log := by
    unfold Registry.closeStreamInternal
    dsimp only
    show (closeEntry s _).log = _
    rw [closeEntry_log, unlinkStream, setHead_log]
    rfl
  intro hs
  have hsound : RelaysSound u := by
    refine hs.suffix ?_
    rw [hlog]
    unfold State.check
    split
    · exact ⟨[_], rfl⟩
    · exact ⟨[_, _], rfl⟩
  obtain ⟨hlinked, huntouched⟩ := h hsound
  obtain ⟨hlt, hc⟩ := hopen hsound
  have hcheck : u.check .closeTwice ((u.streams s).closed = false) = u := if_pos hc
  rw [hcheck] at hlog
  have hnone : clearingRelay s u = none :=
    hs.2 s _ _ (by rw [hlog]; exact List.mem_cons_self)
  refine ⟨?_, ?_⟩
  · rw [closeStreamInternal_linkage]
    exact hlinked.close hlt hc (clearingRelay_none hnone).1 (clearingRelay_none hnone).2
  · unfold Untouched
    rw [hlog]
    exact huntouched.note (e := .streamClosed s _ _) (by simp)

theorem Sane.closeStream (h : Sane u) {s : ℕ} (err : Bool) (hs : s < u.nstreams)
    (hc : (u.streams s).closed = false) : Sane (closeStream s err u) := by
  obtain ⟨w, ⟨-, heq⟩ | ⟨-, heq⟩⟩ := closeStream_cases s err u
  · rw [heq]
    exact h.setStream s rfl
  · rw [heq]
    refine (h.setStream s (f := fun x => { x with timewaitWanted := w }) rfl).closeStreamInternal
      fun _ => ?_
    rw [State.setStream_self]
    exact ⟨hs, hc⟩

theorem Sane.streamDestroy (h : Sane u) {s : ℕ} (queued : Bool)
    (hs : RelaysSound u → s < u.nstreams) : Sane (streamDestroy s queued u) := by
  obtain ⟨-, heq⟩ | ⟨⟨hc, -⟩, ⟨d, heq⟩ | heq⟩ := streamDestroy_cases s queued u
  · rw [heq]
    exact h
  · rw [heq]
    refine (h.setStream s (f := fun x =>
      { x with destroying := d, timewaitWanted := false }) rfl).closeStreamInternal fun hsound => ?_
    rw [State.setStream_self]
    exact ⟨hs (hsound.suffix ⟨[], rfl⟩), hc⟩
  · rw [heq]
    exact h.setStream s rfl

theorem Sane.socketClose (h : Sane u) (k : ℕ) : Sane (socketClose k u) := by
  have hflush : ∀ (q : List ℕ) {v : State}, Sane v →
      Sane (q.foldl (fun u t => Registry.timewaitTimeout t u) v) := by
    intro q
    induction q with
    | nil => exact fun hv => hv
    | cons t rest ih => exact fun hv => ih (hv.timewaitTimeout t)
  unfold Registry.socketClose
  split
  · exact h
  · have hclosed : Sane (u.setSocket k fun x => { x with closed := true }) := h.congr rfl rfl
    exact ((hflush _ (hclosed.note (e := .socketClosed k _) (by simp))).push rfl).push rfl

/-! ### The machine -/

theorem Sane.streamInit (h : Sane u) (id : SeqNo) : Sane (streamInit id u) := by
  have hnew : (entrySet id (.stream u.nstreams) (linkStream none u.nstreams
      ({ u with nstreams := u.nstreams + 1 }.setStream u.nstreams fun _ =>
        { localId := id }))).linkage = u.linkage.init id := by
    unfold entrySet linkStream State.setHead State.linkage State.setStream State.localId Linkage.init
    congr 1 <;> funext x <;> by_cases hx : x = u.nstreams <;> simp [hx]
  have hsane : Sane (entrySet id (.stream u.nstreams) (linkStream none u.nstreams
      ({ u with nstreams := u.nstreams + 1 }.setStream u.nstreams fun _ =>
        { localId := id }))) := by
    intro hs
    obtain ⟨hlinked, hlog⟩ := h (hs.suffix ⟨[], rfl⟩)
    exact ⟨hnew ▸ hlinked.init id, hlog⟩
  unfold Registry.streamInit
  split
  · exact h
  · dsimp only
    split
    · exact hsane.congr rfl rfl
    · exact hsane

theorem streamRelayTo_linkage {s d : ℕ}
    (hopen : ¬((u.streams s).relayed || (u.streams d).closed) = true) :
    (streamRelayTo s d u).linkage = u.linkage.relay s d ∧
      (streamRelayTo s d u).log =
        .relayTo s d (u.streams s) (u.streams d) u.localId :: u.log := by
  have hkey : ∀ (v : State) (f : Stream → Stream), (∀ x, (f x).localId = x.localId) →
      (v.setStream s f).localId = v.localId := by
    intro v f hf
    unfold State.localId State.setStream
    funext x
    by_cases hx : x = s <;> simp [hx, hf]
  unfold streamRelayTo
  rw [if_neg hopen]
  dsimp only
  rw [hkey _ (fun x => { x with relayed := true, relayTo := some d }) fun _ => rfl]
  refine ⟨?_, rfl⟩
  unfold State.linkage State.setStream State.note State.localId Linkage.relay
  by_cases hsd : s = d
  · subst hsd
    congr 1 <;> funext x <;> by_cases hx : x = s <;> simp [hx]
  · congr 1 <;> funext x <;> by_cases hx : x = d <;> by_cases hx' : x = s <;>
      simp [hx, hx', hsd, Ne.symm hsd]

theorem Sane.streamRelayTo (h : Sane u) {s d : ℕ} (hs : s < u.nstreams) (hd : d < u.nstreams) :
    Sane (streamRelayTo s d u) := by
  by_cases hopen : ((u.streams s).relayed || (u.streams d).closed) = true
  · unfold Registry.streamRelayTo
    rw [if_pos hopen]
    exact h
  · obtain ⟨hlinkage, hlog⟩ := streamRelayTo_linkage hopen
    rw [Bool.or_eq_true, not_or, Bool.not_eq_true, Bool.not_eq_true] at hopen
    intro hsound
    have hnote := h.note (e := .relayTo s d (u.streams s) (u.streams d) u.localId) (by simp)
    obtain ⟨hlinked, huntouched⟩ := hnote (hsound.suffix ⟨[], hlog⟩)
    obtain ⟨hos, hids⟩ := hsound.1 s d _ _ _ (by rw [hlog]; exact List.mem_cons_self)
    refine ⟨hlinkage ▸ hlinked.relay hs hd hopen.1 hos hopen.2 hids, ?_⟩
    unfold Untouched
    rw [hlog]
    exact huntouched

theorem check_linkage (a : Site) (p : Prop) [Decidable p] (u : State) :
    (u.check a p).linkage = u.linkage := by
  unfold State.check
  split <;> rfl

theorem setRelaying_linkage (d : ℕ) (f : Cirbuf → Cirbuf) (u : State) :
    (u.setStream d fun x => { x with relaying := f x.relaying }).linkage =
      { u.linkage with
        relaying := Function.update u.linkage.relaying d (f (u.linkage.relaying d)) } := by
  unfold State.linkage State.setStream State.localId
  congr 1 <;> funext x <;> by_cases hx : x = d <;> simp [hx]

theorem unlinkRelay_linkage (s : ℕ) (u : State) : (unlinkRelay s u).linkage =
    { u.linkage with relaying := (u.linkage.unlink s []).relaying } := by
  have hto : u.linkage.relayTo s = (u.streams s).relayTo := rfl
  unfold unlinkRelay Linkage.unlink
  dsimp only
  rw [hto]
  cases (u.streams s).relayTo with
  | none => rfl
  | some d =>
    dsimp only
    have hcheck := check_linkage .relayTarget ((u.streams d).closed = false ∨ d = s) u
    generalize u.check .relayTarget ((u.streams d).closed = false ∨ d = s) = v at hcheck ⊢
    refine (setRelaying_linkage d (fun c => c.remove v.localId (v.localId s)) _).trans ?_
    rw [check_linkage]
    show ({ v.linkage with
      relaying := Function.update v.linkage.relaying d
        ((v.linkage.relaying d).remove v.linkage.ids (v.linkage.ids s)) } : Linkage) = _
    rw [hcheck]

/-- `close_stream_internal` goes on after its callbacks. -/
theorem Sane.clearing (h : Sane u) {s : ℕ} {rest : List Frame}
    (hu : u.stack = .clearing s :: rest) :
    Sane ((unlinkRelay s { u with stack := rest }).push (.relaying s 0)) := by
  have hlog : ∃ l, ((unlinkRelay s { u with stack := rest }).push (.relaying s 0)).log = l ++ u.log := by
    unfold unlinkRelay State.check
    split
    · exact ⟨[], rfl⟩
    · dsimp only
      split_ifs
      · exact ⟨[], rfl⟩
      · exact ⟨[_], rfl⟩
      · exact ⟨[_], rfl⟩
      · exact ⟨[_, _], rfl⟩
  intro hsound
  obtain ⟨hlinked, huntouched⟩ := h (hsound.suffix hlog)
  have hlinkage : ((unlinkRelay s { u with stack := rest }).push (.relaying s 0)).linkage =
      u.linkage.unlink s rest := by
    show ({ (unlinkRelay s { u with stack := rest }).linkage with
      stack := .relaying s 0 :: (unlinkRelay s { u with stack := rest }).linkage.stack } : Linkage) = _
    rw [unlinkRelay_linkage]
    rfl
  refine ⟨hlinkage ▸ hlinked.unlink hu, ?_⟩
  unfold unlinkRelay
  split
  · exact huntouched
  · next d hto =>
    have hmem : .clearing s ∈ u.linkage.stack := by
      rw [show u.linkage.stack = _ from hu]
      exact List.mem_cons_self
    have hto : u.linkage.relayTo s = some d := hto
    have hlive : (u.streams d).relaying.live = true := (hlinked.target_table (.inr hmem) hto).1
    have hopen : (u.streams d).closed = false ∨ d = s := by
      by_cases hd : d = s
      · exact .inr hd
      · exact .inl (hlinked.aims hmem hto hd)
    unfold State.check
    dsimp only
    rw [if_pos hopen, if_pos hlive]
    exact huntouched

/-- Its loop over the streams that relay to it takes a turn, or is over. -/
theorem Sane.relaying (h : Sane u) {s i : ℕ} {rest : List Frame}
    (hu : u.stack = .relaying s i :: rest) (queued : Bool) :
    Sane (Registry.resume queued (.relaying s i) { u with stack := rest }) := by
  have hlinked : RelaysSound u → Linked u.linkage := fun hsound => (h hsound).1
  simp only [Registry.resume]
  split
  · have hvalues : (u.linkage.relaying s).values i = (u.streams s).relaying.values i := rfl
    cases hc : (u.streams s).relaying.values i with
    | none =>
      dsimp only
      intro hsound
      obtain ⟨hl, hlog⟩ := h (hsound.suffix ⟨[], rfl⟩)
      refine ⟨hl.turn (t := u.linkage.relayTo) hu (fun _ _ => rfl) fun {c} hc' => ?_, hlog⟩
      rw [hvalues, hc] at hc'
      cases hc'
    | some c =>
      dsimp only
      have hfound : RelaysSound u → c < u.nstreams ∧ (u.streams c).closed = false ∧
          (u.streams c).relayTo = some s := fun hsound => (hlinked hsound).found hu hc
      unfold destroyRelaying
      generalize hw : ({ u with stack := rest } : State).push (.relaying s (i + 1)) = w
      obtain rfl := hw.symm
      refine Sane.streamDestroy ?_ queued fun hsound => ?_
      · intro hsound
        have hsound' : RelaysSound u := hsound.suffix (by
          unfold State.check
          split
          · exact ⟨[], rfl⟩
          · exact ⟨[_], rfl⟩)
        obtain ⟨hl, hlog⟩ := h hsound'
        obtain ⟨hlt, hopen, hto⟩ := hfound hsound'
        have hdrop : ∀ v : State, (v.setStream c fun x => { x with relayTo := none }).linkage =
            { v.linkage with relayTo := Function.update v.linkage.relayTo c none } := by
          intro v
          unfold State.linkage State.setStream State.localId
          congr 1 <;> funext x <;> by_cases hx : x = c <;> simp [hx]
        refine ⟨?_, ?_⟩
        · rw [hdrop, check_linkage]
          refine hl.turn (t := Function.update u.linkage.relayTo c none) hu
            (fun x hx => Function.update_of_ne ?_ ..) fun {c'} hc' => ?_
          · rintro rfl
            exact hx hc
          · rw [hvalues, hc] at hc'
            obtain rfl := Option.some.inj hc'
            exact Function.update_self ..
        · unfold State.check
          split
          · exact hlog
          · next hno => exact absurd hopen hno
      · have hsound' : RelaysSound u := hsound.suffix (by
          unfold State.check
          split
          · exact ⟨[], rfl⟩
          · exact ⟨[_], rfl⟩)
        show c < (State.check _ _ _).nstreams
        unfold State.check
        split <;> exact (hfound hsound').1
  · next hi =>
    have hfree : Sane (({ u with stack := rest } : State).setStream s fun x =>
        { x with relaying := x.relaying.destroy }) := by
      intro hsound
      obtain ⟨hl, hlog⟩ := h (hsound.suffix ⟨[], rfl⟩)
      refine ⟨?_, hlog⟩
      rw [setRelaying_linkage]
      exact hl.finish hu (Nat.le_of_not_lt hi)
    unfold closeEnd
    dsimp only
    split
    · split
      · exact hfree.socketClose _
      · exact hfree
    · exact hfree

theorem Sane.resume (h : Sane u) {f : Frame} {rest : List Frame} (hu : u.stack = f :: rest)
    (hwalk : ∀ k s, f = .walkStreams k (some s) → s < u.nstreams) (queued : Bool) :
    Sane (Registry.resume queued f { u with stack := rest }) := by
  cases f with
  | user => exact h.pop hu rfl
  | clearing s => exact h.clearing hu
  | relaying s i => exact h.relaying hu queued
  | closingSocket k => exact (h.pop hu rfl).congr rfl rfl
  | walkSockets k =>
    have hpop := h.pop hu rfl
    cases k with
    | none => exact hpop
    | some k =>
      simp only [Registry.resume]
      split
      · exact (hpop.push rfl).socketClose k
      · exact (hpop.push rfl).push rfl
  | nextSocket k => exact (h.pop hu rfl).push rfl
  | walkStreams k s =>
    have hpop := h.pop hu rfl
    cases s with
    | none => exact hpop
    | some s => exact (hpop.push rfl).streamDestroy queued fun _ => hwalk k s rfl
  | nextStream k s => exact (h.pop hu rfl).push rfl
  | walkFree => exact (h.pop hu rfl).push rfl

theorem Sane.runCall (h : Sane u) {c : Call} (hc : c.valid u) : Sane (runCall c u) := by
  cases c with
  | socketInit =>
    simp only [Registry.runCall, Registry.socketInit]
    split
    · exact h
    · exact h.congr rfl rfl
  | streamInit id => exact h.streamInit id
  | connect s k =>
    simp only [Registry.runCall, streamConnect]
    split_ifs
    · exact h
    · exact h
    · exact (h.setStream s (f := fun x => { x with connected := true }) rfl).setStreamSocket s k
  | changeRemote s k ok =>
    simp only [Registry.runCall, streamChangeRemote]
    split_ifs
    · exact h
    · exact h
    · exact h.setStreamSocket s k
    · exact h
  | writeEnd s wanted =>
    simp only [Registry.runCall, streamWriteEnd]
    split
    · exact h.setStream s (f := fun x => { x with timewaitWanted := x.timewaitWanted || wanted }) rfl
    · exact h
  | relayTo s d => exact h.streamRelayTo hc.1 hc.2
  | destroy s queued => exact h.streamDestroy queued fun _ => hc
  | teardown => exact ((h.congr rfl rfl : Sane { u with teardown := true }).push rfl).push rfl

theorem Sane.step (h : Sane u) (hl : Enlisted u none) (hs : Step u v) : Sane v := by
  cases hs with
  | call c _ hc => exact h.runCall hc
  | returned hu => exact h.pop hu rfl
  | event e _ he =>
    cases e with
    | closeStream s err => exact h.closeStream err he.1 he.2
    | destroySent s =>
      refine (h.setStream s (f := fun x => { x with destroyQueued := false }) rfl).closeStreamInternal
        fun _ => ?_
      rw [State.setStream_self]
      exact ⟨he.1, hl.queued_open he.1 he.2⟩
    | timewaitTimeout t => exact h.timewaitTimeout t
    | socketClose k => exact h.socketClose k
  | resume queued hu =>
    exact h.resume hu (fun k s hf => hl.walk_lt (by rw [hu, hf]; exact List.mem_cons_self)) queued

end

theorem Reach.sane {u : State} (h : Reach u) : Sane u := by
  induction h with
  | init =>
    refine fun _ => ⟨⟨fun {d} _ => ⟨rfl, Cirbuf.WF.init (n := 1) (by decide)⟩, nofun, ?_, .nil,
      nofun, nofun, fun _ => ⟨rfl, rfl, ?_⟩⟩, by simp [Untouched]⟩
    · rintro s d ⟨i, hi⟩
      cases hi
    · rintro v ⟨i, hi⟩
      cases hi
  | step hr hs ih => exact ih.step hr.enlisted hs

/-! ### Links between the closes -/

/-- While no close of a stream is in progress, an open stream relays to `d`
just if `d` is open and has it in its table, and tables hold such streams only;
and at no time has a close touched a closed stream or a table that is gone. -/
def Consistent (u : State) : Prop :=
  ((∀ f ∈ u.stack, f.closing = none) →
    (∀ s < u.nstreams, (u.streams s).closed = false → ∀ d, (u.streams s).relayTo = some d ↔
      d < u.nstreams ∧ (u.streams d).closed = false ∧ (u.streams d).relaying.Stored s) ∧
    ∀ d s, (u.streams d).relaying.Stored s →
      s < u.nstreams ∧ (u.streams s).closed = false ∧ (u.streams s).relayTo = some d) ∧
  Untouched u

theorem Linked.links {r : Linkage} (h : Linked r) (hno : ∀ f ∈ r.stack, f.closing = none) :
    (∀ s, r.closed s = false → ∀ d, r.relayTo s = some d ↔
      d < r.nstreams ∧ r.closed d = false ∧ (r.relaying d).Stored s) ∧
    ∀ d s, (r.relaying d).Stored s → s < r.nstreams ∧ r.closed s = false ∧ r.relayTo s = some d := by
  have hnone : ∀ {f s}, f ∈ r.stack → f.closing ≠ some s := by
    intro f s hf hs
    rw [hno f hf] at hs
    cases hs
  have hstored : ∀ d s, (r.relaying d).Stored s →
      s < r.nstreams ∧ r.closed s = false ∧ r.relayTo s = some d := by
    intro d s hs
    obtain ⟨hlt, ⟨hl, hto⟩ | ⟨i, hi, -⟩⟩ := h.source hs
    · exact ⟨hlt, hl.resolve_right fun hc => hnone hc rfl, hto⟩
    · exact absurd rfl (hnone hi)
  refine ⟨fun s hs d => ⟨fun hto => ?_, fun hd => (hstored d s hd.2.2).2.2⟩, hstored⟩
  obtain ⟨hlt, -, hst, ha | ha | ⟨i, hi, -⟩⟩ := h.target (.inl hs) hto
  · exact ⟨hlt, ha, hst⟩
  · exact absurd rfl (hnone ha)
  · exact absurd rfl (hnone hi)

/-- Links are consistent in every sound run. -/
theorem consistent {u : State} (h : Reach u) (hs : RelaysSound u) : Consistent u := by
  obtain ⟨hlinked, hlog⟩ := h.sane hs
  refine ⟨fun hno => ?_, hlog⟩
  obtain ⟨hto, hstored⟩ := hlinked.links hno
  exact ⟨fun s _ hs d => hto s hs d, hstored⟩

/-- Two streams, of which the first is closed. -/
def closedSource : State :=
  proceed^[5] (runCall (.destroy 0 false) (runCall (.streamInit 2) (runCall (.streamInit 1) {})))

/-- The first of two streams is destroyed, and the second, which relays to it,
in its close callback. -/
def closedTarget : State :=
  proceed^[2] (runCall (.destroy 1 false) (runCall (.destroy 0 false) (runCall (.relayTo 1 0)
    (runCall (.streamInit 2) (runCall (.streamInit 1) {})))))

/-- A closed stream starts to relay to an open one, which is then destroyed; and
a close writes to the table of a closed stream. -/
theorem consistent_closed_source : (∃ u, Reach u ∧ ¬ Consistent u) ∧
    (∃ u, Reach u ∧ .failed .relayClosed ∈ u.log) ∧ ∃ u, Reach u ∧ .failed .relayTarget ∈ u.log := by
  have hreach : Reach (runCall (.relayTo 0 1) closedSource) := by
    refine .step (.proceed (.step (.step (.step .init (.call (.streamInit 1) (.inl rfl) trivial))
      (.call (.streamInit 2) (.inl rfl) trivial)) (.call (.destroy 0 false) (.inl rfl) ?_)) 5)
      (.call (.relayTo 0 1) (.inl rfl) ⟨?_, ?_⟩)
    · exact Nat.zero_lt_two
    · exact Nat.zero_lt_two
    · exact Nat.one_lt_two
  refine ⟨⟨_, hreach, fun h => ?_⟩, ⟨proceed^[4] (runCall (.destroy 1 false)
    (runCall (.relayTo 0 1) closedSource)), .proceed (.step hreach (.call (.destroy 1 false)
      (.inl rfl) Nat.one_lt_two)) 4, List.mem_cons_self⟩, closedTarget, ?_, List.mem_cons_self⟩
  · obtain ⟨-, hc, -⟩ := (h.1 nofun).2 1 0 ⟨1, rfl⟩
    cases hc
  · refine .proceed (.step (.step (.step (.step (.step .init (.call (.streamInit 1) (.inl rfl) trivial))
      (.call (.streamInit 2) (.inl rfl) trivial)) (.call (.relayTo 1 0) (.inl rfl) ⟨?_, ?_⟩))
      (.call (.destroy 0 false) (.inl rfl) ?_)) (.call (.destroy 1 false) (.inr ⟨_, rfl⟩) ?_)) 2
    · exact Nat.one_lt_two
    · exact Nat.zero_lt_two
    · exact Nat.zero_lt_two
    · exact Nat.one_lt_two

def threeStreams : State :=
  runCall (.streamInit 3) (runCall (.streamInit 2) (runCall (.streamInit 1) {}))

/-- Two streams relay to a third, and the first of them is destroyed. -/
def relayLeft : State :=
  proceed^[5] (runCall (.destroy 0 false) (runCall (.relayTo 1 2) (runCall (.relayTo 0 2) threeStreams)))

theorem consistent_left : RelaysSound relayLeft ∧ Consistent relayLeft ∧
    relayLeft.stack = [] ∧ (relayLeft.streams 1).relayTo = some 2 := by
  have hreach : Reach relayLeft := by
    refine .proceed (.step (.step (.step (.step (.step (.step .init
      (.call (.streamInit 1) (.inl rfl) trivial)) (.call (.streamInit 2) (.inl rfl) trivial))
      (.call (.streamInit 3) (.inl rfl) trivial)) (.call (.relayTo 0 2) (.inl rfl) ⟨?_, ?_⟩))
      (.call (.relayTo 1 2) (.inl rfl) ⟨?_, ?_⟩)) (.call (.destroy 0 false) (.inl rfl) ?_)) 5
    all_goals
      show _ < 3
      decide
  have hsound : RelaysSound relayLeft := by
    refine ⟨fun s d src dst key hm => ?_, fun s found clearing hm => ?_⟩
    · rcases List.mem_cons.mp hm with he | hm
      · cases he
      rcases List.mem_cons.mp hm with he | hm
      · injection he with hs _ hsrc hdst hkey
        rw [hs, hsrc, hdst, hkey]
        refine ⟨rfl, fun v hv => ?_⟩
        -- the table holds the first stream
        have hv : ((Cirbuf.init 2).set threeStreams.localId 0).Stored v := hv
        obtain rfl | ⟨i, hi⟩ := Cirbuf.set_stored hv
        · decide
        · cases hi
      rcases List.mem_cons.mp hm with he | hm
      · injection he with _ _ hsrc hdst _
        rw [hsrc, hdst]
        refine ⟨rfl, ?_⟩
        rintro v ⟨i, hi⟩
        cases hi
      · cases hm
    · rcases List.mem_cons.mp hm with he | hm
      · injection he
      rcases List.mem_cons.mp hm with he | hm
      · cases he
      rcases List.mem_cons.mp hm with he | hm
      · cases he
      · cases hm
  exact ⟨hsound, consistent hreach hsound, rfl, rfl⟩

end Udx.Registry
