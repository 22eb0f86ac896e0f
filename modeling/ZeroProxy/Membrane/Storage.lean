import ZeroProxy.Store.Keyed
import ZeroProxy.Text.Search
import ZeroProxy.Machine.Run

/-!
# Storage of target origins

All target origins share the storage of the proxy's origin. The membrane gives each of them a
part of it, the keys and names that begin with a prefix computed from the origin
(`installStorageFacades`, `prefixedStorage` of `12-storage.js`). A facade finds its keys by
scanning the native area for the prefix; it should be a store of its own.
-/

namespace ZeroProxy.Membrane

section

open Keyed List Prod Text

/-! ## Prefixes -/

/-- FNV-1a of the characters of an origin (all of them ASCII), in 32 bits. -/
def fnv1a (s : Text) : UInt32 :=
  s.foldl (fun h c => (h ^^^ c.toNat.toUInt32) * 16777619) 0x811c9dc5

def lowerHexDigit (n : Nat) : Char :=
  if n < 10 then Char.ofNat (0x30 + n) else Char.ofNat (0x57 + n)

/-- `originHash`: the hash in eight hexadecimal digits. -/
def originHash (origin : Text) : Text :=
  [7, 6, 5, 4, 3, 2, 1, 0].map fun i => lowerHexDigit ((fnv1a origin).toNat / 16 ^ i % 16)

def areaPrefix (area origin : Text) : Text := area ++ (originHash origin ++ [':'])

/-- The areas of `installStorageFacades`; `sid` identifies the browser tab. -/
def localPrefix (origin : Text) : Text := areaPrefix "zp:l:" origin

@[inherit_doc localPrefix]
def cachePrefix (origin : Text) : Text := areaPrefix "zp:c:" origin

@[inherit_doc localPrefix]
def idbPrefix (origin : Text) : Text := areaPrefix "zp:i:" origin

@[inherit_doc localPrefix]
def bcPrefix (origin : Text) : Text := areaPrefix "zp:b:" origin

@[inherit_doc localPrefix]
def sessionPrefix (sid origin : Text) : Text := areaPrefix ("zp:s:" ++ sid ++ [':']) origin

def opfsRoot (origin : Text) : Text := "zp:o:" ++ originHash origin

/-! ## Storage areas -/

abbrev Area (β : Type*) := List (Text × β)

/-- `hidden`: the keys of the membrane itself. -/
def hidden (name : Text) : Bool := "__zp_".toList.isPrefixOf name

/-- The operations of a `Storage` object. Access to named properties is made of them. -/
inductive StorageOp
  | length
  | key (i : Nat)
  | getItem (k : Text)
  | setItem (k v : Text)
  | removeItem (k : Text)
  | clear
  | ownKeys

/-- What such an operation returns. -/
inductive StorageResult
  | done
  | number (n : Nat)
  | text (t : Option Text)
  | keys (ks : List Text)

section Facades

variable {β ο : Type*} (p : Text)

def under (native : Area β) : Area β := native.filter fun e => p.isPrefixOf e.1

/-- The keys under a prefix, without it and without those that are hidden. -/
def storedKeys (native : Area β) : List Text :=
  native.filterMap fun e => (stripPrefix p e.1).filter fun k => !hidden k

/-- `prefixedStorage`: the native area after an operation of the facade, its result, and the
    native keys that the operation wrote. -/
def storageStep (native : Area Text) : StorageOp → Area Text × StorageResult × List Text
  | .length => (native, .number (storedKeys p native).length, [])
  | .key i => (native, .text (storedKeys p native)[i]?, [])
  | .getItem k => (native, .text (if hidden k then none
      else (lookup fst (p ++ k) native).map (·.2)), [])
  | .setItem k v => (put fst (fun _ => (p ++ k, v)) (p ++ k, v) native, .done, [p ++ k])
  | .removeItem k => (erase fst (p ++ k) native, .done, [p ++ k])
  | .clear =>
    let toDelete := (under p native).map (·.1)
    (toDelete.foldl (fun native k => erase fst k native) native, .done, toDelete)
  | .ownKeys => (native, .keys (storedKeys p native), [])

/-- The key that a page is told in a `storage` event, when the event reaches it. -/
def eventKey (key : Text) : Option Text := (stripPrefix p key).filter fun k => !hidden k

/-! ## Named containers -/

/-- The operations on databases, caches and directories: what a page does to one that it opened
    is any function `f` of its content. -/
inductive ContainerOp (β ο : Type*)
  | use (name : Text) (f : β → β × ο)
  | delete (name : Text)
  | has (name : Text)
  | names
  /-- The first hit among the containers. -/
  | search (g : β → Option ο)

/-- What such an operation returns. -/
inductive ContainerResult (ο : Type*)
  | seen (o : ο)
  | flag (b : Bool)
  | names (ns : List Text)
  | hit (o : Option ο)

/-- The facades of `indexedDB`, `caches` and the directories; a container that is opened is made
    when it is missing. -/
def containerStep (fresh : β) (store : Area β) : ContainerOp β ο → Area β × ContainerResult ο
  | .use name f =>
    let content := ((lookup fst (p ++ name) store).map (·.2)).getD fresh
    (put fst (fun _ => (p ++ name, (f content).1)) (p ++ name, (f content).1) store,
      .seen (f content).2)
  | .delete name => (erase fst (p ++ name) store,
      .flag (lookup fst (p ++ name) store).isSome)
  | .has name => (store, .flag (lookup fst (p ++ name) store).isSome)
  | .names => (store, .names ((under p store).map fun e => e.1.drop p.length))
  | .search g => (store, .hit ((under p store).findSome? fun e => g e.2))

end Facades

/-! ## The shared world -/

/-- A channel that a page opened, with its native name. -/
structure Channel where
  owner : Text
  requested : Text

def Channel.native (ch : Channel) : Text := bcPrefix ch.owner ++ ch.requested

/-- The storage of the proxy's origin, as the pages of one browser tab have it: databases have
    contents in `δ`, caches in `γ` and directories in `φ`. -/
structure World (δ γ φ : Type*) where
  localStorage : Area Text
  sessionStorage : Area Text
  databases : Area δ
  caches : Area γ
  directories : Area φ
  channels : List Channel

/-- What a page can do through the facades. -/
inductive Action (δ γ φ ο : Type*)
  | localStorage (op : StorageOp)
  | sessionStorage (op : StorageOp)
  | openDatabase (name : Text) (f : δ → δ × ο)
  | deleteDatabase (name : Text)
  | databases
  | cache (op : ContainerOp γ ο)
  | directory (f : φ → φ × ο)
  | openChannel (name : Text)
  | postMessage (name : Text)

/-- What the page gets. -/
inductive Seen (ο : Type*)
  | nothing
  | storage (r : StorageResult)
  | container (r : ContainerResult ο)

open Seen

/-- What comes of an action: the world, what the page gets, the native keys written in the two
    storage areas, and the channels that get a message. -/
structure Outcome (δ γ φ ο : Type*) where
  world : World δ γ φ
  seen : Seen ο
  localKeys : List Text
  sessionKeys : List Text
  delivered : List Channel

/-- The contents of new containers, and the identifier of the browser tab. -/
structure Setting (δ γ φ : Type*) where
  database : δ
  cache : γ
  directory : φ
  sid : Text

variable {δ γ φ ο : Type*} (s : Setting δ γ φ)

/-- An action of a page of an origin. -/
def act (origin : Text) (w : World δ γ φ) : Action δ γ φ ο → Outcome δ γ φ ο
  | .localStorage op =>
    let (area, r, keys) := storageStep (localPrefix origin) w.localStorage op
    ⟨{ w with localStorage := area }, .storage r, keys, [], []⟩
  | .sessionStorage op =>
    let (area, r, keys) := storageStep (sessionPrefix s.sid origin) w.sessionStorage op
    ⟨{ w with sessionStorage := area }, .storage r, [], keys, []⟩
  | .openDatabase name f =>
    let (area, r) := containerStep (idbPrefix origin) s.database w.databases (.use name f)
    ⟨{ w with databases := area }, .container r, [], [], []⟩
  | .deleteDatabase name =>
    let (area, r) := containerStep (idbPrefix origin) s.database w.databases (.delete name)
    ⟨{ w with databases := area }, .container r, [], [], []⟩
  | .databases =>
    let (area, r) := containerStep (idbPrefix origin) s.database w.databases .names
    ⟨{ w with databases := area }, .container r, [], [], []⟩
  | .cache op =>
    let (area, r) := containerStep (cachePrefix origin) s.cache w.caches op
    ⟨{ w with caches := area }, .container r, [], [], []⟩
  | .directory f =>
    let (area, r) := containerStep (opfsRoot origin) s.directory w.directories (.use [] f)
    ⟨{ w with directories := area }, .container r, [], [], []⟩
  | .openChannel name =>
    ⟨{ w with channels := w.channels ++ [⟨origin, name⟩] }, .nothing, [], [], []⟩
  | .postMessage name =>
    ⟨w, .nothing, [], [], w.channels.filter fun ch => ch.native == bcPrefix origin ++ name⟩

/-! ## Prefixes that are apart -/

def Apart (p q : Text) : Prop := ¬ p <+: q ∧ ¬ q <+: p

variable {p q o₁ o₂ : Text}

theorem Apart.symm (h : Apart p q) : Apart q p := ⟨h.2, h.1⟩

theorem Apart.isPrefixOf_eq_false (h : Apart p q) {t : Text} (ht : p <+: t) :
    q.isPrefixOf t = false := by
  rw [← Bool.not_eq_true, isPrefixOf_iff_prefix]
  intro hq
  rcases prefix_or_prefix_of_prefix ht hq with h' | h'
  · exact h.1 h'
  · exact h.2 h'

theorem apart_of_length_eq (hlen : p.length = q.length) (hne : p ≠ q) : Apart p q :=
  ⟨fun h => hne (h.eq_of_length hlen), fun h => hne (h.eq_of_length hlen.symm).symm⟩

section Facades

variable {β : Type*} {p q : Text}

variable {k : Text}

theorem eventKey_eq_none (h : Apart p q) (hk : p <+: k) : eventKey q k = none := by
  rw [eventKey, stripPrefix, h.isPrefixOf_eq_false hk]
  rfl

theorem under_put_other (h : Apart p q) (k : Text) (v : β) (native : Area β) :
    under q (put fst (fun _ => (p ++ k, v)) (p ++ k, v) native) = under q native := by
  rw [under, filter_put fun _ _ => rfl, h.isPrefixOf_eq_false (prefix_append p k)]
  rfl

theorem under_erase_other (h : Apart p q) (hk : p <+: k) (native : Area β) :
    under q (erase fst k native) = under q native := by
  rw [under, filter_erase, h.isPrefixOf_eq_false hk]
  rfl

theorem under_put_own (k : Text) (v : β) (native : Area β) :
    under p (put fst (fun _ => (p ++ k, v)) (p ++ k, v) native) =
      put fst (fun _ => (p ++ k, v)) (p ++ k, v) (under p native) := by
  rw [under, filter_put fun _ _ => rfl, if_pos ( isPrefixOf_iff_prefix.2 (prefix_append p k)), under]

theorem under_erase_own (hk : p <+: k) (native : Area β) :
    under p (erase fst k native) = erase fst k (under p native) := by
  rw [under, filter_erase, if_pos ( isPrefixOf_iff_prefix.2 hk), under]

theorem lookup_under (k : Text) (native : Area β) :
    lookup fst (p ++ k) (under p native) = lookup fst (p ++ k) native :=
  lookup_filter <| isPrefixOf_iff_prefix.2 (prefix_append p k)

theorem storedKeys_under (native : Area β) : storedKeys p (under p native) = storedKeys p native := by
  rw [storedKeys, under, filterMap_filter, storedKeys]
  refine filterMap_congr fun e _ => ?_
  split
  · rfl
  · rw [stripPrefix, if_neg ‹_›, Option.filter_none]

theorem prefix_of_mem_under {native : Area β} (hk : k ∈ (under p native).map (·.1)) : p <+: k := by
  obtain ⟨e, he, rfl⟩ := mem_map.1 hk
  exact isPrefixOf_iff_prefix.1 (mem_filter.1 he).2

theorem under_foldl_erase_other (h : Apart p q) {ks : List Text} (hks : ∀ k ∈ ks, p <+: k)
    (native : Area β) :
    under q (ks.foldl (fun native k => erase fst k native) native) = under q native := by
  induction ks generalizing native with
  | nil => rfl
  | cons k ks ih =>
    rw [foldl_cons, ih (fun k' hk => hks k' (.tail _ hk)), under_erase_other h (hks k (.head _))]

theorem under_foldl_erase_own {ks : List Text} (hks : ∀ k ∈ ks, p <+: k) (native : Area β) :
    under p (ks.foldl (fun native k => erase fst k native) native) =
      ks.foldl (fun native k => erase fst k native) (under p native) := by
  induction ks generalizing native with
  | nil => rfl
  | cons k ks ih =>
    rw [foldl_cons, ih (fun k' hk => hks k' (.tail _ hk)),
      under_erase_own (hks k (.head _)), foldl_cons]

theorem storageStep_other (h : Apart p q) (native : Area Text) (op : StorageOp) :
    under q (storageStep p native op).1 = under q native ∧
      ∀ k ∈ (storageStep p native op).2.2, eventKey q k = none := by
  cases op with
  | setItem k v =>
    refine ⟨under_put_other h k v native, fun k' hk => ?_⟩
    rw [mem_singleton.1 hk, eventKey_eq_none h (prefix_append p k)]
  | removeItem k =>
    refine ⟨under_erase_other h (prefix_append p k) native, fun k' hk => ?_⟩
    rw [mem_singleton.1 hk, eventKey_eq_none h (prefix_append p k)]
  | clear =>
    exact ⟨under_foldl_erase_other h (fun k hk => prefix_of_mem_under hk) native,
      fun k hk => eventKey_eq_none h (prefix_of_mem_under hk)⟩
  | _ => exact ⟨rfl, nofun⟩

theorem storageStep_own {a b : Area Text} (h : under p a = under p b) (op : StorageOp) :
    (storageStep p a op).2.1 = (storageStep p b op).2.1 ∧
      under p (storageStep p a op).1 = under p (storageStep p b op).1 := by
  have hkeys : storedKeys p a = storedKeys p b := by
    rw [← storedKeys_under, h, storedKeys_under]
  cases op with
  | length | key i | ownKeys => exact ⟨by rw [storageStep, storageStep, hkeys], h⟩
  | getItem k => exact ⟨by rw [storageStep, storageStep, ← lookup_under, h, lookup_under], h⟩
  | setItem k v => exact ⟨rfl, by rw [storageStep, storageStep, under_put_own, h, under_put_own]⟩
  | removeItem k =>
    have hk := prefix_append p k
    exact ⟨rfl, by rw [storageStep, storageStep, under_erase_own hk, h, under_erase_own hk]⟩
  | clear =>
    refine ⟨rfl, ?_⟩
    rw [storageStep, storageStep]
    rw [under_foldl_erase_own fun k hk => prefix_of_mem_under hk,
      under_foldl_erase_own fun k hk => prefix_of_mem_under hk, h]

theorem containerStep_other (h : Apart p q) (fresh : β) (store : Area β) (op : ContainerOp β ο) :
    under q (containerStep p fresh store op).1 = under q store := by
  cases op with
  | use name f => exact under_put_other h name _ store
  | delete name => exact under_erase_other h (prefix_append p name) store
  | _ => rfl

theorem containerStep_own {a b : Area β} (h : under p a = under p b) (fresh : β)
    (op : ContainerOp β ο) :
    (containerStep p fresh a op).2 = (containerStep p fresh b op).2 ∧
      under p (containerStep p fresh a op).1 = under p (containerStep p fresh b op).1 := by
  have hlook (k : Text) : lookup fst (p ++ k) a = lookup fst (p ++ k) b := by
    rw [← lookup_under, h, lookup_under]
  cases op with
  | use name f =>
    rw [containerStep, containerStep]
    rw [hlook, under_put_own, h, under_put_own]
    exact ⟨rfl, rfl⟩
  | delete name =>
    have hk := prefix_append p name
    exact ⟨by rw [containerStep, containerStep, hlook],
      by rw [containerStep, containerStep, under_erase_own hk, h, under_erase_own hk]⟩
  | has name => exact ⟨by rw [containerStep, containerStep, hlook], h⟩
  | names | search g => exact ⟨by rw [containerStep, containerStep, h], h⟩

end Facades

/-! ## Isolation -/

/-- The part of the world that belongs to an origin. -/
def view (origin : Text) (w : World δ γ φ) : World δ γ φ where
  localStorage := under (localPrefix origin) w.localStorage
  sessionStorage := under (sessionPrefix s.sid origin) w.sessionStorage
  databases := under (idbPrefix origin) w.databases
  caches := under (cachePrefix origin) w.caches
  directories := under (opfsRoot origin) w.directories
  channels := w.channels.filter fun ch => (bcPrefix origin).isPrefixOf ch.native

/-- What an action did is nothing to the pages of `origin`: their part of the world is as it was,
    and they get no event and no message. -/
def Unaffected (origin : Text) (w : World δ γ φ) (out : Outcome δ γ φ ο) : Prop :=
  view s origin out.world = view s origin w ∧
    (∀ k ∈ out.localKeys, eventKey (localPrefix origin) k = none) ∧
    (∀ k ∈ out.sessionKeys, eventKey (sessionPrefix s.sid origin) k = none) ∧
    ∀ ch ∈ out.delivered, ch.owner ≠ origin

/-- What a page of `origin` gets from an action, and what it leaves of its part of the world,
    depends on that part only. -/
def Confined (ο : Type*) (origin : Text) : Prop :=
  ∀ (w w' : World δ γ φ) (a : Action δ γ φ ο), view s origin w = view s origin w' →
    (act s origin w a).seen = (act s origin w' a).seen ∧
      view s origin (act s origin w a).world = view s origin (act s origin w' a).world

/-- Two origins are kept apart. -/
def Isolated (ο : Type*) (o₁ o₂ : Text) : Prop :=
  (Confined s ο o₁ ∧ Confined s ο o₂) ∧ ∀ (w : World δ γ φ) (a : Action δ γ φ ο),
    Unaffected s o₂ w (act s o₁ w a) ∧ Unaffected s o₁ w (act s o₂ w a)

theorem length_originHash (origin : Text) : (originHash origin).length = 8 := rfl

theorem apart_areaPrefix (area : Text) (h : originHash o₁ ≠ originHash o₂) :
    Apart (areaPrefix area o₁) (areaPrefix area o₂) := by
  refine apart_of_length_eq ?_ fun heq => ?_
  · simp [areaPrefix, length_originHash]
  · rw [areaPrefix, areaPrefix] at heq
    exact h (append_cancel_right (append_cancel_left heq))

theorem apart_opfsRoot (h : originHash o₁ ≠ originHash o₂) : Apart (opfsRoot o₁) (opfsRoot o₂) := by
  refine apart_of_length_eq ?_ fun heq => h (append_cancel_left heq)
  simp [opfsRoot, length_originHash]

variable {s}

theorem view_eq_iff {origin : Text} {w w' : World δ γ φ} : view s origin w = view s origin w' ↔
    under (localPrefix origin) w.localStorage = under (localPrefix origin) w'.localStorage ∧
    under (sessionPrefix s.sid origin) w.sessionStorage =
      under (sessionPrefix s.sid origin) w'.sessionStorage ∧
    under (idbPrefix origin) w.databases = under (idbPrefix origin) w'.databases ∧
    under (cachePrefix origin) w.caches = under (cachePrefix origin) w'.caches ∧
    under (opfsRoot origin) w.directories = under (opfsRoot origin) w'.directories ∧
    w.channels.filter (fun ch => (bcPrefix origin).isPrefixOf ch.native) =
      w'.channels.filter fun ch => (bcPrefix origin).isPrefixOf ch.native := by
  rw [view, view, World.mk.injEq]

theorem unaffected_of_hash_ne (h : originHash o₁ ≠ originHash o₂)
    (w : World δ γ φ) (a : Action δ γ φ ο) : Unaffected s o₂ w (act s o₁ w a) := by
  have hnone {α : Type} {P : α → Prop} : ∀ x ∈ ([] : List α), P x := nofun
  cases a with
  | localStorage op =>
    obtain ⟨hunder, hev⟩ := storageStep_other (apart_areaPrefix _ h) w.localStorage op
    exact ⟨view_eq_iff.2 ⟨hunder, rfl, rfl, rfl, rfl, rfl⟩, hev, hnone, hnone⟩
  | sessionStorage op =>
    obtain ⟨hunder, hev⟩ := storageStep_other (apart_areaPrefix _ h) w.sessionStorage op
    exact ⟨view_eq_iff.2 ⟨rfl, hunder, rfl, rfl, rfl, rfl⟩, hnone, hev, hnone⟩
  | openDatabase name f =>
    refine ⟨view_eq_iff.2 ⟨rfl, rfl, ?_, rfl, rfl, rfl⟩, hnone, hnone, hnone⟩
    exact containerStep_other (apart_areaPrefix _ h) s.database w.databases (.use name f)
  | deleteDatabase name =>
    refine ⟨view_eq_iff.2 ⟨rfl, rfl, ?_, rfl, rfl, rfl⟩, hnone, hnone, hnone⟩
    exact under_erase_other (apart_areaPrefix _ h) (prefix_append _ name) w.databases
  | databases => exact ⟨rfl, hnone, hnone, hnone⟩
  | cache op =>
    refine ⟨view_eq_iff.2 ⟨rfl, rfl, rfl, ?_, rfl, rfl⟩, hnone, hnone, hnone⟩
    exact containerStep_other (apart_areaPrefix _ h) s.cache w.caches op
  | directory f =>
    refine ⟨view_eq_iff.2 ⟨rfl, rfl, rfl, rfl, ?_, rfl⟩, hnone, hnone, hnone⟩
    exact containerStep_other (apart_opfsRoot h) s.directory w.directories (.use [] f)
  | openChannel name =>
    refine ⟨view_eq_iff.2 ⟨rfl, rfl, rfl, rfl, rfl, ?_⟩, hnone, hnone, hnone⟩
    have hforeign := (apart_areaPrefix _ h).isPrefixOf_eq_false
      (prefix_append (bcPrefix o₁) name)
    rw [act, filter_append, filter_cons_of_neg (by
      rw [Channel.native, bcPrefix, hforeign]; exact Bool.false_ne_true), filter_nil,
      append_nil]
  | postMessage name =>
    refine ⟨rfl, hnone, hnone, fun ch hch howner => ?_⟩
    have hname : bcPrefix ch.owner ++ ch.requested = bcPrefix o₁ ++ name :=
      beq_iff_eq.1 (mem_filter.1 hch).2
    rw [howner] at hname
    refine Bool.false_ne_true (((apart_areaPrefix _ h).isPrefixOf_eq_false
      (prefix_append (bcPrefix o₁) name)).symm.trans ?_)
    exact isPrefixOf_iff_prefix.2 ⟨ch.requested, hname⟩

theorem confined (origin : Text) : Confined s ο origin := by
  intro w w' a h
  obtain ⟨hl, hs, hd, hc, hf, hb⟩ := view_eq_iff.1 h
  cases a with
  | localStorage op =>
    obtain ⟨hr, hunder⟩ := storageStep_own hl op
    exact ⟨congrArg storage hr, view_eq_iff.2 ⟨hunder, hs, hd, hc, hf, hb⟩⟩
  | sessionStorage op =>
    obtain ⟨hr, hunder⟩ := storageStep_own hs op
    exact ⟨congrArg storage hr, view_eq_iff.2 ⟨hl, hunder, hd, hc, hf, hb⟩⟩
  | openDatabase name f =>
    obtain ⟨hr, hunder⟩ := containerStep_own hd s.database (.use name f)
    exact ⟨congrArg container hr, view_eq_iff.2 ⟨hl, hs, hunder, hc, hf, hb⟩⟩
  | deleteDatabase name =>
    obtain ⟨hr, hunder⟩ := containerStep_own hd s.database (.delete name)
    exact ⟨congrArg container hr, view_eq_iff.2 ⟨hl, hs, hunder, hc, hf, hb⟩⟩
  | databases =>
    obtain ⟨hr, hunder⟩ := containerStep_own hd s.database .names
    exact ⟨congrArg container hr, view_eq_iff.2 ⟨hl, hs, hunder, hc, hf, hb⟩⟩
  | cache op =>
    obtain ⟨hr, hunder⟩ := containerStep_own hc s.cache op
    exact ⟨congrArg container hr, view_eq_iff.2 ⟨hl, hs, hd, hunder, hf, hb⟩⟩
  | directory f =>
    obtain ⟨hr, hunder⟩ := containerStep_own hf s.directory (.use [] f)
    exact ⟨congrArg container hr, view_eq_iff.2 ⟨hl, hs, hd, hc, hunder, hb⟩⟩
  | openChannel name =>
    refine ⟨rfl, view_eq_iff.2 ⟨hl, hs, hd, hc, hf, ?_⟩⟩
    rw [act, act, filter_append, filter_append, hb]
  | postMessage name => exact ⟨rfl, h⟩

theorem affected_of_hash_eq (h : originHash o₁ = originHash o₂) :
    ¬ Unaffected s o₂ (⟨[], [], [], [], [], []⟩ : World δ γ φ)
      (act s o₁ ⟨[], [], [], [], [], []⟩ (.localStorage (.setItem [] []) : Action δ γ φ ο)) := by
  rintro ⟨hview, -⟩
  have hlocal : under (localPrefix o₂) [(localPrefix o₁ ++ [], ([] : Text))] = [] :=
    congrArg World.localStorage hview
  have hmine : (localPrefix o₂).isPrefixOf (localPrefix o₁ ++ []) := by
    rw [localPrefix, areaPrefix, ← h]
    exact isPrefixOf_iff_prefix.2 (prefix_append _ _)
  exact filter_eq_nil_iff.1 hlocal _ (.head _) hmine

/-- Two origins are kept apart, whatever their pages do in whatever world, if and only if the
    hashes of the origins differ. -/
theorem isolated_iff (s : Setting δ γ φ) (ο : Type*) (o₁ o₂ : Text) :
    Isolated s ο o₁ o₂ ↔ originHash o₁ ≠ originHash o₂ := by
  constructor
  · intro h heq
    exact affected_of_hash_eq heq (h.2 _ _).1
  · exact fun h => ⟨⟨confined o₁, confined o₂⟩,
      fun w a => ⟨unaffected_of_hash_ne h w a, unaffected_of_hash_ne h.symm w a⟩⟩

/-- Two origins with the same hash. -/
theorem colliding_origins_not_isolated : "https://casuz.com" ≠ "https://fomem.net".toList ∧
      ¬ Isolated (⟨(), (), (), []⟩ : Setting Unit Unit Unit) Unit "https://casuz.com"
        "https://fomem.net" := by
  refine ⟨by decide, fun h => ?_⟩
  have hhash : originHash "https://casuz.com" = originHash "https://fomem.net" := by
    decide
  exact affected_of_hash_eq hhash (h.2 _ _).1

end

section

open Keyed List Machine Option Text

/-! ## Stores -/

/-- A storage area: named texts, in the order in which they are enumerated. -/
structure Store where
  entries : Area Text
  distinct : Keyed.Distinct Prod.fst entries

namespace Store

@[ext]
theorem ext {s t : Store} (h : s.entries = t.entries) : s = t := by
  cases s
  cases t
  cases h
  rfl

def empty : Store := ⟨[], distinct_nil⟩

/-- Store a value; a new key comes last. -/
def put (s : Store) (k v : Text) : Store :=
  ⟨Keyed.put Prod.fst (fun _ => (k, v)) (k, v) s.entries, Keyed.distinct_put (fun _ _ => rfl) s.distinct⟩

/-- Remove a key. -/
def erase (s : Store) (k : Text) : Store :=
  ⟨Keyed.erase Prod.fst k s.entries, Keyed.distinct_erase s.distinct⟩

/-- An operation of a store that stands alone. -/
def step (s : Store) : StorageOp → Store × StorageResult
  | .length => (s, .number s.entries.length)
  | .key i => (s, .text (s.entries[i]?.map Prod.fst))
  | .getItem k => (s, .text ((lookup Prod.fst k s.entries).map Prod.snd))
  | .setItem k v => (s.put k v, .done)
  | .removeItem k => (s.erase k, .done)
  | .clear => (empty, .done)
  | .ownKeys => (s, .keys (s.entries.map Prod.fst))

/-! ## Facades -/

theorem distinct_foldl_erase (ks : List Text) {native : Area Text}
    (h : Keyed.Distinct Prod.fst native) :
    Keyed.Distinct Prod.fst (ks.foldl (fun native k => Keyed.erase Prod.fst k native) native) := by
  induction ks generalizing native with
  | nil => exact h
  | cons k ks ih => exact ih (distinct_erase h)

theorem distinct_storageStep (p : Text) (native : Store) (op : StorageOp) :
    Keyed.Distinct Prod.fst (storageStep p native.entries op).1 := by
  cases op with
  | setItem k v => exact distinct_put (fun _ _ => rfl) native.distinct
  | removeItem k => exact distinct_erase native.distinct
  | clear => exact distinct_foldl_erase _ native.distinct
  | _ => exact native.distinct

/-- An operation of the facade with prefix `p` on the native area. -/
def facade (p : Text) (native : Store) (op : StorageOp) : Store × StorageResult :=
  (⟨(storageStep p native.entries op).1, distinct_storageStep p native op⟩,
    (storageStep p native.entries op).2.1)

variable {p q : Text}

theorem eventKey_eq_some_iff {key k : Text} :
    eventKey p key = some k ↔ key = p ++ k ∧ hidden k = false := by
  rw [eventKey, filter_eq_some_iff, stripPrefix, Bool.not_eq_true']
  refine and_congr_left fun _ => ?_
  by_cases hp : p.isPrefixOf key
  · rw [if_pos hp, some.injEq]
    obtain ⟨rest, rfl⟩ := isPrefixOf_iff_prefix.1 hp
    rw [drop_left]
    exact ⟨fun h => by rw [h], fun h => append_cancel_left h⟩
  · rw [if_neg hp]
    refine ⟨(fun h => by cases h), fun h => absurd ?_ hp⟩
    rw [h]
    exact isPrefixOf_iff_prefix.2 (prefix_append p k)

/-- What the facade with prefix `p` shows. -/
def shown (p : Text) (native : Store) : Store where
  entries := renamed (eventKey p) native.entries
  distinct := distinct_renamed (fun a a' b ha ha' => by
    rw [(eventKey_eq_some_iff.1 ha).1, (eventKey_eq_some_iff.1 ha').1]) native.distinct

theorem map_fst_shown (native : Store) :
    (shown p native).entries.map Prod.fst = storedKeys p native.entries := map_fst_renamed

theorem renamed_under (native : Area Text) :
    renamed (eventKey p) (under p native) = renamed (eventKey p) native := by
  rw [renamed, under, filterMap_filter, renamed]
  refine filterMap_congr fun e _ => ?_
  split
  · rfl
  · rw [eventKey, stripPrefix, if_neg ‹_›, filter_none, map_none]

theorem foldl_erase_keys (native : Area Text) :
    (native.map Prod.fst).foldl (fun native k => Keyed.erase Prod.fst k native) native = [] := by
  induction native with
  | nil => rfl
  | cons e native ih => rw [map_cons, foldl_cons, erase_cons_pos rfl, ih]

end Store

open Store

/-- The keys of an operation are not those of the membrane itself. -/
def StorageOp.visible : StorageOp → Prop
  | .getItem k | .setItem k _ | .removeItem k => hidden k = false
  | _ => True

namespace Store

variable {p q : Text}

theorem facade_own (native : Store) {op : StorageOp} (hop : op.visible) :
    (shown p native).step op = (shown p (facade p native op).1, (facade p native op).2) := by
  have hkeys := map_fst_shown (p := p) native
  have hname {k : Text} (hk : hidden k = false) : eventKey p (p ++ k) = some k :=
    eventKey_eq_some_iff.2 ⟨rfl, hk⟩
  have honly {k : Text} (a : Text) (ha : eventKey p a = some k) : a = p ++ k :=
    (eventKey_eq_some_iff.1 ha).1
  cases op with
  | length =>
    rw [step, ← length_map Prod.fst, hkeys]
    rfl
  | key i =>
    rw [step, ← getElem?_map, hkeys]
    rfl
  | ownKeys =>
    rw [step, hkeys]
    rfl
  | getItem k =>
    have hlook := lookup_renamed (l := native.entries) (hname hop) honly
    have hget : (storageStep p native.entries (.getItem k)).2.1 =
        .text ((lookup Prod.fst (p ++ k) native.entries).map Prod.snd) := by
      simp [storageStep, if_neg (Bool.eq_false_iff.1 hop)]
    rw [step, facade, hget, ← hlook]
    rfl
  | setItem k v =>
    refine Prod.ext (ext ?_) rfl
    exact (Keyed.renamed_put (hname hop) honly).symm
  | removeItem k =>
    refine Prod.ext (ext ?_) rfl
    exact (Keyed.renamed_erase (hname hop) honly).symm
  | clear =>
    refine Prod.ext (ext ?_) rfl
    -- All that is under the prefix is erased, so nothing is shown.
    change [] = renamed (eventKey p) (storageStep p native.entries .clear).1
    rw [storageStep, ← renamed_under, under_foldl_erase_own fun k hk => prefix_of_mem_under hk,
      foldl_erase_keys]
    rfl

theorem facade_other (h : Apart p q) (native : Store) (op : StorageOp) :
    shown q (facade p native op).1 = shown q native := by
  refine ext ?_
  change renamed (eventKey q) (storageStep p native.entries op).1 = _
  rw [← renamed_under, (storageStep_other h native.entries op).1, renamed_under]
  rfl

theorem shown_perm {native native' : Store} (h : native'.entries.Perm native.entries) :
    (shown p native').entries.Perm (shown p native).entries := h.filterMap _

end Store

/-! ## Runs -/

/-- What happens to the native area: an operation through one of the two facades, which has a
    result or is a `setItem` that the browser refuses for want of space, or a change of the order
    in which the browser enumerates the keys. -/
inductive StorageEvent
  | first (op : StorageOp) (r : StorageResult)
  | second (op : StorageOp) (r : StorageResult)
  | refused (k v : Text)
  | reordered

/-- The keys of the event are not those of the membrane itself. -/
def StorageEvent.visible : StorageEvent → Prop
  | .first op _ | .second op _ => op.visible
  | _ => True

/-- What an event does to the native area. -/
def SharedStep (p q : Text) (native : Store) (e : StorageEvent) (native' : Store) : Prop :=
  match e with
  | .first op r => native.facade p op = (native', r)
  | .second op r => native.facade q op = (native', r)
  | .refused _ _ => native' = native
  | .reordered => native'.entries.Perm native.entries

/-- What it does to two stores of their own. -/
def SeparateStep (s : Store × Store) (e : StorageEvent) (s' : Store × Store) : Prop :=
  match e with
  | .first op r => s.1.step op = (s'.1, r) ∧ s'.2 = s.2
  | .second op r => s.2.step op = (s'.2, r) ∧ s'.1 = s.1
  | .refused _ _ => s' = s
  | .reordered => s'.1.entries.Perm s.1.entries ∧ s'.2.entries.Perm s.2.entries

/-- Operations through two facades of one native area, whose prefixes are apart, have the results
    that they have on two stores of their own: each facade shows what was written through it, and no
    operation of one facade changes what the other shows. -/
theorem facades_separate {p q : Text} (h : Apart p q) {native native' : Store}
    {es : List StorageEvent} (hvisible : ∀ e ∈ es, e.visible)
    (hrun : Trace (SharedStep p q) native es native') :
    Trace SeparateStep (native.shown p, native.shown q) es (native'.shown p, native'.shown q) := by
  refine Trace.map (f := fun native => (shown p native, shown q native))
    (fun e he s t hstep => ?_) hrun
  cases e with
  | first op r =>
    obtain ⟨rfl, rfl⟩ := Prod.ext_iff.1 hstep
    exact ⟨s.facade_own (hvisible _ he), s.facade_other h op⟩
  | second op r =>
    obtain ⟨rfl, rfl⟩ := Prod.ext_iff.1 hstep
    exact ⟨s.facade_own (hvisible _ he), s.facade_other h.symm op⟩
  | refused k v =>
    cases hstep
    exact rfl
  | reordered => exact ⟨shown_perm hstep, shown_perm hstep⟩

/-- Two facades of an empty area store under the same key, and the first is cleared. -/
theorem facades_separate_same_key : Trace SeparateStep (empty, empty)
      [.first (.setItem ['k'] ['1']) .done, .second (.setItem ['k'] ['2']) .done,
        .first (.getItem ['k']) (.text (some ['1'])), .first .clear .done,
        .first .length (.number 0), .second (.key 0) (.text (some ['k'])),
        .second (.getItem ['k']) (.text (some ['2']))]
      (empty, empty.put ['k'] ['2']) := by
  have hapart : Apart ['a', ':'] ['b', ':'] := apart_of_length_eq rfl (by decide)
  refine @facades_separate _ _ hapart .empty (empty.put ['b', ':', 'k'] ['2']) _ ?_ ?_
  · simp [StorageEvent.visible, StorageOp.visible, hidden, isPrefixOf]
  · exact .cons rfl (.cons rfl (.cons rfl (.cons rfl (.cons rfl (.cons rfl (.cons rfl (.nil _)))))))

end

section

open List Machine Text

/-! ## Permissions

The browser has one answer about notifications for the origin of the proxy. The membrane records the
answers and the device grants of each target origin in the part of `localStorage` that belongs to
it, under names that its own facade hides. -/

/-! ### Pages and what they are granted -/

/-- A page: what `opaqueDocument` and `crossOriginFrame` say of it, and which load it is. -/
structure Page where
  origin : Text
  opaqueDocument : Bool
  crossOriginFrame : Bool
  load : Nat
  deriving DecidableEq

/-- Notifications are denied to the page without asking the browser. -/
def Page.denied (page : Page) : Bool := page.opaqueDocument || page.crossOriginFrame

/-- What the browser answers about notifications. -/
inductive Decision
  | default
  | granted
  | denied
  deriving DecidableEq

/-- The answer as a page reads it. -/
def Decision.text : Decision → Text
  | .default => "default"
  | .granted => "granted"
  | .denied => "denied"

/-- What a page was given: a stream from `getUserMedia` with tracks of these kinds, one from
    `getDisplayMedia`, or a position. -/
inductive Grant
  | userMedia (video audio : Bool)
  | displayMedia
  | position

/-- The names that `recordGrant` is called with. -/
def Grant.names : Grant → List Text
  | .userMedia video audio =>
    (if video then "camera" else "microphone") :: if audio then ["microphone"] else []
  | .displayMedia => ["display-capture"]
  | .position => ["geolocation"]

/-- A key of the page's storage under which the membrane keeps its permissions. -/
def permKey : Text := "__zp_notif_perm"

@[inherit_doc permKey]
def grantsKey : Text := "__zp_grants"

/-- What the pages share, and the set that each of them has in memory. -/
structure Permissions where
  /-- The browser's answer for the origin of the proxy. -/
  permission : Decision
  localStorage : Area Text
  grantedPerms : Page → List Text

/-! ### The membrane -/

/-- `prefixedStorage(nativeLocalStorage, localPrefix).getItem`. -/
def readRecord (origin key : Text) (native : Area Text) : Option Text :=
  match (storageStep (localPrefix origin) native (.getItem key)).2.1 with
  | .text t => t
  | _ => none

/-- `prefixedStorage(nativeLocalStorage, localPrefix).setItem`. -/
def writeRecord (origin key value : Text) (native : Area Text) : Area Text :=
  (storageStep (localPrefix origin) native (.setItem key value)).1

/-- The getter of `Notification.permission`. -/
def notificationPermission (page : Page) (w : Permissions) : Text :=
  if page.denied then Decision.denied.text
  else match readRecord page.origin permKey w.localStorage with
    | some stored => if stored.isEmpty then w.permission.text else stored
    | none => w.permission.text

def addName (names : List Text) (name : Text) : List Text :=
  if name ∈ names then names else names ++ [name]

def storedGrants (origin : Text) (native : Area Text) : List Text :=
  match readRecord origin grantsKey native with
  | some stored => ((split (· == ',') stored).filter fun g => !g.isEmpty).foldl addName []
  | none => []

def recordGrant (page : Page) (w : Permissions) (name : Text) : Permissions :=
  let granted := addName (w.grantedPerms page) name
  { w with
    localStorage := writeRecord page.origin grantsKey (joined ',' granted) w.localStorage
    grantedPerms := fun p => if p = page then granted else w.grantedPerms p }

/-- A page loads, asks about notifications and gets an answer, or is granted something. -/
inductive PermissionEvent
  | load (page : Page)
  | request (page : Page) (result : Decision)
  | grant (page : Page) (g : Grant)

namespace PermissionEvent

/-- Whose event it is. -/
def page : PermissionEvent → Page
  | .load page | .request page _ | .grant page _ => page

/-- The answer of the browser, when it is asked. -/
def decision : PermissionEvent → Option Decision
  | .request page result => if page.denied then none else some result
  | _ => none

end PermissionEvent

open PermissionEvent

namespace Permissions

/-- What an event does. An answer of the browser is its answer from then on. -/
def step (w : Permissions) : PermissionEvent → Permissions
  | .load page => { w with
      grantedPerms := fun p => if p = page then storedGrants page.origin w.localStorage
        else w.grantedPerms p }
  | .request page result =>
    if page.denied then w
    else { w with
      permission := result
      localStorage := writeRecord page.origin permKey result.text w.localStorage }
  | .grant page g => g.names.foldl (recordGrant page) w

end Permissions

open Permissions

/-! ### What is read -/

theorem readRecord_of_hidden {key : Text} (hkey : hidden key) (origin : Text)
    (native : Area Text) : readRecord origin key native = none := by
  simp [readRecord, storageStep, if_pos hkey]

theorem hidden_permKey : hidden permKey := by
  unfold hidden permKey
  repeat rw [String.toList_ofList]
  decide

theorem hidden_grantsKey : hidden grantsKey := by
  unfold hidden grantsKey
  repeat rw [String.toList_ofList]
  decide

theorem notificationPermission_eq (page : Page) (w : Permissions) :
    notificationPermission page w = if page.denied then Decision.denied.text else w.permission.text := by
  rw [notificationPermission, readRecord_of_hidden hidden_permKey]

theorem storedGrants_eq_nil (origin : Text) (native : Area Text) : storedGrants origin native = [] := by
  rw [storedGrants, readRecord_of_hidden hidden_grantsKey]

theorem permission_foldl_recordGrant (page : Page) (names : List Text) (w : Permissions) :
    (names.foldl (recordGrant page) w).permission = w.permission := by
  induction names generalizing w with
  | nil => rfl
  | cons name names ih => rw [foldl_cons, ih, recordGrant]

theorem permission_step (w : Permissions) (e : PermissionEvent) :
    (w.step e).permission = e.decision.getD w.permission := by
  cases e with
  | load page => rfl
  | request page result =>
    rw [step, decision]
    split <;> rfl
  | grant page g => exact permission_foldl_recordGrant page g.names w

def lastDecision (d : Decision) (es : List PermissionEvent) : Decision :=
  (es.filterMap decision).getLastD d

theorem permission_run (w : Permissions) (es : List PermissionEvent) :
    (run step w es).permission = lastDecision w.permission es := by
  induction es generalizing w with
  | nil => rfl
  | cons e es ih =>
    rw [run_cons, ih, permission_step, lastDecision, lastDecision, filterMap_cons]
    cases e.decision with
    | none => rfl
    | some d => rw [getLastD_cons, Option.getD_some]

theorem decision_text_injective {d d' : Decision} (h : d.text = d'.text) : d = d' := by
  revert h
  cases d <;> cases d' <;> decide

def ownEvents (origin : Text) (es : List PermissionEvent) : List PermissionEvent :=
  es.filter fun e => e.page.origin = origin

/-- What a page reads of `Notification.permission`, and of the grants after a reload, is what it
    would read if only the pages of its own origin had asked: exactly if it is denied all
    notifications or the browser's last answer is the last one to a page of its origin. -/
theorem reads_own_iff (w : Permissions) (es : List PermissionEvent) (page : Page) :
    (notificationPermission page (run step w es) =
        notificationPermission page (run step w (ownEvents page.origin es)) ∧
      storedGrants page.origin (run step w es).localStorage =
        storedGrants page.origin (run step w (ownEvents page.origin es)).localStorage) ↔
    page.denied ∨
      lastDecision w.permission es = lastDecision w.permission (ownEvents page.origin es) := by
  rw [storedGrants_eq_nil, storedGrants_eq_nil, notificationPermission_eq,
    notificationPermission_eq, permission_run, permission_run]
  cases page.denied with
  | true => simp
  | false =>
    simp only [Bool.false_eq_true, and_true, false_or]
    exact ⟨decision_text_injective, congrArg Decision.text⟩

/-- A page that never asked reads that it may show notifications, because a page of another origin
    was granted that. -/
theorem grant_read_by_other : notificationPermission ⟨"https://a.example", false, false, 0⟩
      (run step ⟨.default, [], fun _ => []⟩
        [.request ⟨"https://b.example", false, false, 1⟩ .granted]) =
      "granted" ∧
    notificationPermission ⟨"https://a.example", false, false, 0⟩
      (run step ⟨.default, [], fun _ => []⟩ (ownEvents "https://a.example"
          [.request ⟨"https://b.example", false, false, 1⟩ .granted])) =
      "default" := by
  rw [notificationPermission_eq, notificationPermission_eq, permission_run, permission_run]
  rw [ownEvents, filter_cons_of_neg (by simp [page])]
  exact ⟨rfl, rfl⟩

end

end ZeroProxy.Membrane
