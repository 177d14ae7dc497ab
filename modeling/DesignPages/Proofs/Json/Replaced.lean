import DesignPages.Proofs.Json.Respect
import DesignPages.Proofs.Json.Room

/-!
# Values that differ in one field

A view of a record keeps a part of it.  If the view after a field was read only depends on the view
before, and one field reads the same into the view from two values, then the record is read the same,
seen through the view, with either value in this field.  It may be written in both forms, and if it
cannot be read, the fault is the same.
-/

namespace DesignPages
namespace Json

variable {α σ τ : Type}

/-! ## The two values -/

/-- The second value is an array of the same items as the first one and of `v`, which stands in one
more place. -/
def Inserted (v vs ws : Json) : Prop :=
  ∃ front back, vs = .arr (front ++ back) ∧ ws = .arr (front ++ v :: back)

/-- `x` and `y` are two records of one form that only differ in the field `name`, which is `v` in the
one and `w` in the other.  `names` are the fields in the order of their declaration. -/
inductive Replaced (names : List String) (name : String) (v w : Json) : Json → Json → Prop
  | member (front back : List (String × Json)) :
      Replaced names name v w (.obj (front ++ (name, v) :: back))
        (.obj (front ++ (name, w) :: back))
  | element (front back : List Json) (h : names[front.length]? = some name) :
      Replaced names name v w (.arr (front ++ v :: back)) (.arr (front ++ w :: back))

namespace Outline

theorem ofItems_append (vs ws : List Json) : ofItems (vs ++ ws) = ofItems vs ++ ofItems ws := by
  induction vs with
  | nil => rw [ofItems, List.nil_append, List.nil_append]
  | cons v vs ih => rw [List.cons_append, ofItems, ofItems, List.cons_append, ih]

theorem ofMembers_append (ms ns : List (String × Json)) :
    ofMembers (ms ++ ns) = ofMembers ms ++ ofMembers ns := by
  induction ms with
  | nil => rw [ofMembers, List.nil_append, List.nil_append]
  | cons m ms ih => rw [List.cons_append, ofMembers, ofMembers, List.cons_append, ih]

theorem length_ofItems (vs : List Json) : (ofItems vs).length = vs.length := by
  induction vs with
  | nil => rfl
  | cons v vs ih => rw [ofItems, List.length_cons, List.length_cons, ih]

theorem depthItems_append (os ps : List Outline) :
    depthItems (os ++ ps) = max (depthItems os) (depthItems ps) := by
  induction os with
  | nil => rw [List.nil_append, depthItems, Nat.zero_max]
  | cons o os ih => rw [List.cons_append, depthItems, depthItems, ih, Nat.max_assoc]

theorem depthMembers_append (ms ns : List (Key × Outline)) :
    depthMembers (ms ++ ns) = max (depthMembers ms) (depthMembers ns) := by
  induction ms with
  | nil => rw [List.nil_append, depthMembers, Nat.zero_max]
  | cons m ms ih => rw [List.cons_append, depthMembers, depthMembers, ih, Nat.max_assoc]

end Outline

section Depth

variable {v vs ws : Json}

theorem Outline.depth_lt_of_item (front back : List Json) (v : Json) :
    (ofJson v).depth < (ofJson (.arr (front ++ v :: back))).depth := by
  rw [ofJson, depth, ofItems_append, depthItems_append, ofItems, depthItems]
  omega

theorem Inserted.depth_lt (h : Inserted v vs ws) :
    (Outline.ofJson v).depth < (Outline.ofJson ws).depth := by
  obtain ⟨front, back, rfl, rfl⟩ := h
  exact Outline.depth_lt_of_item front back v

theorem Inserted.depth_le (h : Inserted v vs ws) :
    (Outline.ofJson vs).depth ≤ (Outline.ofJson ws).depth := by
  obtain ⟨front, back, rfl, rfl⟩ := h
  simp only [Outline.ofJson, Outline.depth, Outline.ofItems_append, Outline.depthItems_append,
    Outline.ofItems, Outline.depthItems]
  omega

end Depth

namespace Replaced

variable {names : List String} {name : String} {v w x y : Json}

/-- A field is less deep than its record. -/
theorem depth_lt (h : Replaced names name v w x y) :
    (Outline.ofJson w).depth < (Outline.ofJson y).depth := by
  cases h with
  | member front back =>
      rw [Outline.ofJson, Outline.depth, Outline.ofMembers_append, Outline.depthMembers_append,
        Outline.ofMembers, Outline.depthMembers]
      omega
  | element front back _ => exact Outline.depth_lt_of_item front back w

theorem depth_le (h : Replaced names name v w x y)
    (hdepth : (Outline.ofJson v).depth ≤ (Outline.ofJson w).depth) :
    (Outline.ofJson x).depth ≤ (Outline.ofJson y).depth := by
  cases h with
  | member front back =>
      simp only [Outline.ofJson, Outline.depth, Outline.ofMembers_append,
        Outline.depthMembers_append, Outline.ofMembers, Outline.depthMembers]
      omega
  | element front back _ =>
      simp only [Outline.ofJson, Outline.depth, Outline.ofItems_append,
        Outline.depthItems_append, Outline.ofItems, Outline.depthItems]
      omega

end Replaced

/-! ## Settings -/

/-- Settings in which a value is read that was taken in as a part of another one. -/
structure Setting.Within (v : Json) (s : Setting) : Prop where
  manner : s.manner = .whole
  room_le : s.room ≤ depthLimit
  depth_le : (Outline.ofJson v).depth ≤ s.room

namespace Setting.Within

variable {v w : Json} {s t : Setting} {d : Decoder α}

theorem inside (h : s.Within w) (ht : s.inside = .ok t)
    (hdepth : (Outline.ofJson v).depth < (Outline.ofJson w).depth) : t.Within v := by
  have hroom := h.room_le
  have hlt := hdepth.trans_le h.depth_le
  unfold Setting.inside at ht
  split_ifs at ht
  obtain rfl := Except.ok.inj ht
  refine ⟨h.manner, ?_, ?_⟩ <;> dsimp only <;> omega

/-- A part is read as it is read on its own. -/
theorem read_eq_fromWhole (h : s.Within v) (hd : ∀ k, Decoder.AgreeBelow k d d) :
    d s (.ofJson v) = fromWhole d v :=
  hd _ s _ _ (Nat.lt_succ_self _) ⟨h.manner, h.depth_le, h.depth_le.trans h.room_le⟩

end Setting.Within

/-! ## Two readings through a view -/

section Except

variable {ε β γ δ : Type}

/-- Two readings that look the same may be followed by steps that only use what is looked at. -/
theorem bind_congr_of_map {x y : Except ε α} {f g : α → Except ε β} {q : α → γ}
    (hxy : x.map q = y.map q) (hfg : ∀ a b, q a = q b → f a = g b) : (x >>= f) = (y >>= g) := by
  cases x with
  | error e =>
      cases y with
      | error e' => rw [Except.error.inj hxy]; rfl
      | ok b => exact absurd hxy (by simp [Except.map])
  | ok a =>
      cases y with
      | error e => exact absurd hxy (by simp [Except.map])
      | ok b => exact hfg a b (Except.ok.inj hxy)

theorem map_bind (x : Except ε α) (f : α → Except ε β) (q : β → δ) :
    (x >>= f).map q = x >>= fun a => (f a).map q := by
  cases x <;> rfl

/-- Two readings in a row look the same if both steps do. -/
theorem map_bind_congr {x y : Except ε α} {f g : α → Except ε β} {q : α → γ} {q' : β → δ}
    (hxy : x.map q = y.map q) (hfg : ∀ a b, q a = q b → (f a).map q' = (g b).map q') :
    (x >>= f).map q' = (y >>= g).map q' := by
  rw [map_bind, map_bind]
  exact bind_congr_of_map hxy hfg

theorem map_bind_congr_right {x : Except ε α} {f g : α → Except ε β} {q : β → δ}
    (hfg : ∀ a, x = .ok a → (f a).map q = (g a).map q) :
    (x >>= f).map q = (x >>= g).map q := by
  cases x with
  | error e => rfl
  | ok a => exact hfg a rfl

end Except

/-! ## Items -/

namespace Decoder

variable {d : Decoder α} {s : Setting} {o o' : Outline}

/-- An item that is left out of the view may stand anywhere between the others. -/
theorem items_inserted {keep : α → Bool} {a : α} (ha : d s o = .ok a) (hkeep : keep a = false)
    (front back : List Outline) :
    (items d s (front ++ back)).map (List.filter keep) =
      (items d s (front ++ o :: back)).map (List.filter keep) := by
  induction front with
  | nil =>
      rw [List.nil_append, List.nil_append, items, ha]
      cases items d s back with
      | error fault => rfl
      | ok as =>
          refine congrArg Except.ok (List.filter_cons_of_neg ?_).symm
          rw [hkeep]
          exact Bool.false_ne_true
  | cons x front ih =>
      rw [List.cons_append, List.cons_append, items, items]
      refine map_bind_congr_right fun b _ => map_bind_congr ih fun as bs hab => ?_
      refine congrArg Except.ok ?_
      rw [List.filter_cons, List.filter_cons, hab]

/-- An item may be replaced by another one that looks the same. -/
theorem items_replaced {p : α → τ} (h : (d s o).map p = (d s o').map p)
    (front back : List Outline) :
    (items d s (front ++ o :: back)).map (List.map p) =
      (items d s (front ++ o' :: back)).map (List.map p) := by
  induction front with
  | nil =>
      rw [List.nil_append, List.nil_append, items, items]
      refine map_bind_congr h fun a b hab => map_bind_congr_right fun as _ => ?_
      refine congrArg Except.ok ?_
      rw [List.map_cons, List.map_cons, hab]
  | cons x front ih =>
      rw [List.cons_append, List.cons_append, items, items]
      refine map_bind_congr_right fun b _ => map_bind_congr ih fun as bs hab => ?_
      refine congrArg Except.ok ?_
      rw [List.map_cons, List.map_cons, hab]

/-- Lists look the same if their items do. -/
theorem list_congr {p : List α → τ} {os os' : List Outline} {stop : Stop}
    (h : ∀ t, s.inside = .ok t → (items d t os).map p = (items d t os').map p) :
    (list d s (.arr os stop)).map p = (list d s (.arr os' stop)).map p := by
  rw [list, list]
  refine map_bind_congr_right fun t ht => map_bind_congr (h t ht) fun as bs hab => ?_
  exact map_bind_congr_right fun _ _ => congrArg Except.ok hab

/-- Records that look the same do so where the value may be left out. -/
theorem nullable_replaced {names : List String} {name : String} {v w x y : Json} {p : α → τ}
    (hxy : Replaced names name v w x y) (h : (d s (.ofJson x)).map p = (d s (.ofJson y)).map p) :
    (nullable d s (.ofJson x)).map (Option.map p) =
      (nullable d s (.ofJson y)).map (Option.map p) := by
  have hsome (o : Outline) : ((d s o).map some).map (Option.map p) = ((d s o).map p).map some := by
    cases d s o <;> rfl
  have hread := congrArg (Except.map some) h
  rw [← hsome, ← hsome] at hread
  cases hxy <;> exact hread

/-- An item that is left out of the view may be inserted into an array. -/
theorem list_inserted {keep : α → Bool} (hd : ∀ k, AgreeBelow k d d) {v vs ws : Json} {a : α}
    (ha : fromWhole d v = .ok a) (hkeep : keep a = false) (h : Inserted v vs ws)
    (hs : s.Within ws) :
    (list d s (.ofJson vs)).map (List.filter keep) =
      (list d s (.ofJson ws)).map (List.filter keep) := by
  have hdepth := h.depth_lt
  obtain ⟨front, back, rfl, rfl⟩ := h
  rw [Outline.ofJson, Outline.ofJson, Outline.ofItems_append, Outline.ofItems_append,
    Outline.ofItems]
  refine list_congr fun t ht => items_inserted ?_ hkeep _ _
  exact ((hs.inside ht hdepth).read_eq_fromWhole hd).trans ha

end Decoder

/-! ## Fields -/

namespace Field

variable {q : σ → τ}

/-- The view after the field was read depends on the view before alone. -/
def Preserves (q : σ → τ) (f : Field σ) : Prop :=
  ∀ s o a b, q a = q b → (f.read s o a).map q = (f.read s o b).map q

/-- The view is the same, whichever of the two values the field is read from. -/
def AgreeOn (q : σ → τ) (s : Setting) (o o' : Outline) (f : Field σ) : Prop :=
  ∀ a, (f.read s o a).map q = (f.read s o' a).map q

variable {name : String} {absence : Absence} {d : Decoder α} {put : α → σ → σ}

theorem preserves_of (hput : ∀ v a b, q a = q b → q (put v a) = q (put v b)) :
    (of name absence d put).Preserves q := by
  intro s o a b hab
  simp only [of]
  cases d s o with
  | error fault => rfl
  | ok v => exact congrArg Except.ok (hput v a b hab)

/-- It suffices that the values that are read look the same, seen through another view, if the view
of the record shows no more of them. -/
theorem agreeOn_of {β : Type} {p : α → β} {s : Setting} {o o' : Outline}
    (h : (d s o).map p = (d s o').map p) (hput : ∀ v w a, p v = p w → q (put v a) = q (put w a)) :
    (of name absence d put).AgreeOn q s o o' := by
  intro a
  simp only [of]
  cases hv : d s o with
  | error fault =>
      cases hw : d s o' with
      | error fault' =>
          rw [hv, hw] at h
          rw [Except.error.inj h]
      | ok w => exact absurd h (by simp [hv, hw, Except.map])
  | ok v =>
      cases hw : d s o' with
      | error fault => exact absurd h (by simp [hv, hw, Except.map])
      | ok w =>
          rw [hv, hw] at h
          exact congrArg Except.ok (hput v w a (Except.ok.inj h))

end Field

/-! ## Records -/

namespace Record

variable {r : Record σ} {q : σ → τ} {s : Setting} {o o' : Outline}

theorem readMembers_preserves (hr : ∀ f ∈ r.fields, f.Preserves q) (ms : List (Key × Outline))
    (seen : List String) {a b : σ} (hab : q a = q b) :
    (r.readMembers s ms seen a).map (Prod.map id q) =
      (r.readMembers s ms seen b).map (Prod.map id q) := by
  induction ms generalizing seen a b with
  | nil => exact congrArg (fun t => Except.ok (seen, t)) hab
  | cons m ms ih =>
      obtain ⟨key, u⟩ := m
      rw [readMembers, readMembers]
      refine map_bind_congr_right fun k hk => ?_
      cases hf : r.field? k with
      | none => exact map_bind_congr_right fun _ _ => ih seen hab
      | some f =>
          dsimp only
          split_ifs
          · rfl
          · exact map_bind_congr (hr f (List.mem_of_find?_eq_some hf) s u a b hab)
              fun a' b' hab' => ih (k :: seen) hab'

/-- The value of a member may be replaced; one that nobody reads must be as sound. -/
theorem readMembers_replaced (hr : ∀ f ∈ r.fields, f.Preserves q) {name : String}
    (hskip : o.skip = o'.skip) (hname : ∀ f ∈ r.fields, f.name = name → f.AgreeOn q s o o')
    (front back : List (Key × Outline)) (seen : List String) {a b : σ} (hab : q a = q b) :
    (r.readMembers s (front ++ (.text name, o) :: back) seen a).map (Prod.map id q) =
      (r.readMembers s (front ++ (.text name, o') :: back) seen b).map (Prod.map id q) := by
  induction front generalizing seen a b with
  | nil =>
      rw [List.nil_append, List.nil_append, readMembers, readMembers]
      refine map_bind_congr_right fun k hk => ?_
      obtain rfl : name = k := Except.ok.inj hk
      cases hf : r.field? name with
      | none =>
          dsimp only
          rw [hskip]
          exact map_bind_congr_right fun _ _ => readMembers_preserves hr back seen hab
      | some f =>
          obtain ⟨hmem, hfname⟩ := mem_fields_of_field? hf
          have hread : (f.read s o a).map q = (f.read s o' b).map q :=
            (hr f hmem s o a b hab).trans (hname f hmem hfname b)
          dsimp only
          split_ifs
          · rfl
          · exact map_bind_congr hread fun a' b' hab' =>
              readMembers_preserves hr back (name :: seen) hab'
  | cons m front ih =>
      obtain ⟨key, u⟩ := m
      rw [List.cons_append, List.cons_append, readMembers, readMembers]
      refine map_bind_congr_right fun k hk => ?_
      cases hf : r.field? k with
      | none => exact map_bind_congr_right fun _ _ => ih seen hab
      | some f =>
          dsimp only
          split_ifs
          · rfl
          · exact map_bind_congr (hr f (List.mem_of_find?_eq_some hf) s u a b hab)
              fun a' b' hab' => ih (k :: seen) hab'

theorem ofMembers_replaced (hr : ∀ f ∈ r.fields, f.Preserves q) {name : String}
    (hskip : o.skip = o'.skip) (hname : ∀ f ∈ r.fields, f.name = name → f.AgreeOn q s o o')
    (front back : List (Key × Outline)) (stop : Stop) :
    (r.ofMembers s (front ++ (.text name, o) :: back) stop).map q =
      (r.ofMembers s (front ++ (.text name, o') :: back) stop).map q := by
  rw [ofMembers, ofMembers]
  refine map_bind_congr (readMembers_replaced hr hskip hname front back [] rfl) fun a b hab => ?_
  obtain ⟨seen, a⟩ := a
  obtain ⟨seen', b⟩ := b
  obtain ⟨rfl, hview⟩ := Prod.mk.inj hab
  exact map_bind_congr_right fun _ _ => map_bind_congr_right fun _ _ =>
    congrArg Except.ok hview

theorem readElements_preserves (stop : Stop) (os : List Outline) (index : ℕ)
    (fs : List (Field σ)) (hfs : ∀ f ∈ fs, f.Preserves q) {a b : σ} (hab : q a = q b) :
    (r.readElements s stop index os fs a).map q = (r.readElements s stop index os fs b).map q := by
  induction os generalizing index fs a b with
  | nil =>
      have hview : (pure a : Except Fault σ).map q = (pure b : Except Fault σ).map q :=
        congrArg Except.ok hab
      cases fs with
      | nil =>
          rw [readElements, readElements]
          exact map_bind_congr_right fun _ _ => hview
      | cons f fs =>
          rw [readElements, readElements]
          exact map_bind_congr_right fun _ _ => map_bind_congr_right fun _ _ => hview
  | cons u os ih =>
      cases fs with
      | nil => rw [readElements, readElements]
      | cons f fs =>
          rw [List.forall_mem_cons] at hfs
          rw [readElements, readElements]
          exact map_bind_congr (hfs.1 s u a b hab) fun a' b' hab' => ih (index + 1) fs hfs.2 hab'

/-- An element may be replaced if the field in its place is read the same. -/
theorem readElements_replaced (stop : Stop) (front back : List Outline) (index : ℕ)
    (fs : List (Field σ)) (hfs : ∀ f ∈ fs, f.Preserves q)
    (hplace : ∀ f ∈ fs[front.length]?, f.AgreeOn q s o o') {a b : σ} (hab : q a = q b) :
    (r.readElements s stop index (front ++ o :: back) fs a).map q =
      (r.readElements s stop index (front ++ o' :: back) fs b).map q := by
  induction front generalizing index fs a b with
  | nil =>
      rw [List.nil_append, List.nil_append]
      cases fs with
      | nil =>
          rw [readElements, readElements, List.length_cons, List.length_cons]
      | cons f fs =>
          rw [List.forall_mem_cons] at hfs
          have hread : (f.read s o a).map q = (f.read s o' b).map q :=
            (hfs.1 s o a b hab).trans (hplace f rfl b)
          rw [readElements, readElements]
          exact map_bind_congr hread fun a' b' hab' =>
            readElements_preserves stop back (index + 1) fs hfs.2 hab'
  | cons u front ih =>
      rw [List.cons_append, List.cons_append]
      cases fs with
      | nil =>
          rw [readElements, readElements]
          simp only [List.length_cons, List.length_append]
      | cons f fs =>
          rw [List.forall_mem_cons] at hfs
          rw [readElements, readElements]
          exact map_bind_congr (hfs.1 s u a b hab) fun a' b' hab' =>
            ih (index + 1) fs hfs.2 hplace hab'

/-- Records that only differ in one field look the same if this field is read the same. -/
theorem decoder_replaced (hr : ∀ f ∈ r.fields, f.Preserves q) {name : String} {v w x y : Json}
    (h : Replaced (r.fields.map Field.name) name v w x y)
    (hname : ∀ f ∈ r.fields, f.name = name → ∀ t, s.inside = .ok t →
      f.AgreeOn q t (.ofJson v) (.ofJson w)) :
    (r.decoder s (.ofJson x)).map q = (r.decoder s (.ofJson y)).map q := by
  have hskip : (Outline.ofJson v).skip = (Outline.ofJson w).skip := by
    rw [Outline.skip_ofJson, Outline.skip_ofJson]
  cases h with
  | member front back =>
      simp only [Outline.ofJson, Outline.ofMembers_append, Outline.ofMembers, decoder]
      refine map_bind_congr_right fun t ht => ?_
      exact ofMembers_replaced hr hskip (fun f hf hfname => hname f hf hfname t ht) _ _ _
  | element front back hplace =>
      simp only [Outline.ofJson, Outline.ofItems_append, Outline.ofItems, decoder]
      refine map_bind_congr_right fun t ht => ?_
      refine readElements_replaced _ _ _ 0 r.fields hr (fun f hf => ?_) rfl
      rw [Outline.length_ofItems] at hf
      have hfield : f.name = name := by
        have hget := Option.mem_def.mp hf
        rw [List.getElem?_map, hget] at hplace
        exact Option.some_inj.mp hplace
      exact hname f (List.mem_of_getElem? hf) hfield t ht

end Record
end Json
end DesignPages
