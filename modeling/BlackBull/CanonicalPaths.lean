import BlackBull.SymbolicLinks

/-!
# Canonical paths

What `realpath` returns without giving up at a loop of links is canonical: where the kernel can
walk the path, it ends at that very path.
-/

namespace BlackBull.Posix

open ByteString

namespace FileSystem

/-- Where the kernel can walk a part of the path, it ends at that very part. -/
structure Canonical (fs : FileSystem) (path : List Name) : Prop where
  names : ∀ name∈path,name≠[] ∧ slash∉name
  settled : ∀ front,front <+: path → ∀ q,fs.resolveFrom maxLinks [] front=some q → q=front

section Canonical

variable {fs : FileSystem} {path rs : List Name} {name : Name} {sn : Seen}

theorem canonical_nil : Canonical fs [] := by
  refine ⟨by simp,fun f hf q hq => ?_⟩
  obtain rfl := List.prefix_nil.mp hf
  simpa [resolveFrom,advance,eq_comm] using hq

theorem Canonical.dropLast (h : Canonical fs path) : Canonical fs path.dropLast :=
  ⟨fun name hn => h.names name (path.dropLast_subset hn),
    fun f hf => h.settled f (hf.trans path.dropLast_prefix)⟩

theorem Canonical.start (h : Canonical fs path) (t : Bytes) : Canonical fs (start path t) := by
  unfold FileSystem.start
  split_ifs
  · exact canonical_nil
  · exact h

theorem Canonical.lstat (h : Canonical fs path) {p : List Name}
    (hp : fs.resolveFrom maxLinks [] path=some p) (hd : fs.lookup p=some .directory) :
    fs.lstat path name=fs.lookup (path++[name]) := by
  obtain rfl := h.settled path (List.prefix_rfl) p hp
  rw [FileSystem.lstat,hp]
  simp [hd]

theorem Canonical.concat (h : Canonical fs path) (hn : slash∉name)
    (hp : ¬ (name=[] ∨ name=curdir)) (hc : name≠pardir)
    (hpl : ∀ t,fs.lstat path name≠some (.link t)) : Canonical fs (path++[name]) := by
  refine ⟨List.forall_mem_append.mpr ⟨h.names,?_⟩,fun f hf q hq => ?_⟩
  · exact List.forall_mem_singleton.mpr ⟨fun hni => hp (.inl hni),hn⟩
  · rcases List.prefix_concat_iff.mp hf with rfl | hf
    · obtain ⟨p,node,hpa,hd,hfo,he⟩ :=
        resolveFrom_concat hp hc hq
      obtain rfl := h.settled path List.prefix_rfl p hpa
      refine he fun t hno => hpl t ?_
      rw [h.lstat hpa hd,hfo,hno]
    · exact h.settled f hf q hq

/-- Links are resolved to canonical paths. -/
def Resolved (fs : FileSystem) (seen : Seen) : Prop :=
  ∀ key path,seen.get? key=some (some path) → Canonical fs path

/-- How a walk ends: at a canonical path. -/
def Ends (fs : FileSystem) : Except Stop (List Name × Seen) → Prop
  | .ok (path,seen) => Canonical fs path ∧ Resolved fs seen
  | .error _ => True

variable {t : Bytes}

theorem mem_names : ∀ name∈names t,slash∉name := fun _ h => (of_mem_splitByte h).1

theorem Resolved.set (h : Resolved fs sn) (key : List Name) {v : Option (List Name)}
    (hv : ∀ path,v=some path → Canonical fs path) : Resolved fs (sn.set key v) := by
  intro o path hg
  rw [Dict.get?_set] at hg
  split_ifs at hg
  · exact hv path (Option.some.inj hg)
  · exact h o path hg

theorem joinWith_ends {f : List Name → List Name → Seen → Except Stop (List Name × Seen)} (hf : ∀
    path rs sn,Canonical fs path → (∀ name∈rs,slash∉name) → Resolved fs sn →
    Ends fs (f path rs sn)) (hp : Canonical fs path) (hr : ∀ name∈rs,slash∉name)
    (hs : Resolved fs sn) : Ends fs (fs.joinWith f path rs sn) := by
  induction rs generalizing path sn with
  | nil => exact ⟨hp,hs⟩
  | cons name rs ih =>
    obtain ⟨hn,hr⟩ := List.forall_mem_cons.mp hr
    rw [joinWith]
    by_cases hc : name=[] ∨ name=curdir
    · rw [if_pos hc]
      exact ih hp hr hs
    rw [if_neg hc]
    by_cases hup : name=pardir
    · rw [if_pos hup]
      exact ih hp.dropLast hr hs
    rw [if_neg hup]
    by_cases hnu : 0∈name
    · rw [if_pos hnu]
      trivial
    rw [if_neg hnu]
    have hpl (h : ∀ t,fs.lstat path name≠some (.link t)) :
        Ends fs (fs.joinWith f (path++[name]) rs sn) :=
      ih (hp.concat hn hc hup h) hr hs
    split
    · next t hl =>
      split
      · next r hg => exact ih (hs _ _ hg) hr hs
      · trivial
      · next hg =>
        have he := hf (start path t) (names t) (sn.set (path++[name]) none)
          (hp.start t) mem_names (hs.set (path++[name]) (by simp))
        split
        · next r s heq =>
          rw [heq] at he
          obtain ⟨hre,hs'⟩ := he
          refine ih hre hr (hs'.set _ ?_)
          rintro _ ⟨⟩
          exact hre
        · trivial
        · trivial
    · next hno => exact hpl hno

theorem joinRealpath_ends (d : ℕ) (hp : Canonical fs path)
    (hr : ∀ name∈rs,slash∉name) (hs : Resolved fs sn) :
    Ends fs (fs.joinRealpath d path rs sn) := by
  induction d generalizing path rs sn with
  | zero =>
    exact joinWith_ends (fun _ _ _ _ _ _ => trivial) hp hr hs
  | succ d ih => exact joinWith_ends (fun path rs sn hp hr hs => ih hp hr hs) hp hr hs

theorem resolved_nil : Resolved fs [] := by rintro _ _ ⟨⟩

theorem walk_ends (fs : FileSystem) (path : Bytes) : Ends fs (fs.walk path) :=
  joinRealpath_ends _ canonical_nil mem_names resolved_nil

theorem normpath_names (t : Bytes) : ∀ name∈(normpath t).path,name≠[] ∧ slash∉name := by
  refine List.foldlRecOn (motive := fun path => ∀ name∈path,name≠[] ∧ slash∉name) (names t) _
    (by simp) fun path hp name hn => ?_
  split_ifs with hc
  · exact hp
  · exact fun o ho => hp o (path.dropLast_subset ho)
  · refine List.forall_mem_append.mpr ⟨hp,List.forall_mem_singleton.mpr ⟨?_,mem_names name hn⟩⟩
    exact fun hni => hc (.inl hni)

theorem realpath_eq_some {r : Normal} (h : fs.realpath t=some r) :
    (∀ name∈r.path,name≠[] ∧ slash∉name) ∧
      (fs.loops t=false → r.doubled=false ∧ Canonical fs r.path) := by
  have he := walk_ends fs t
  rw [loops]
  rw [realpath] at h
  split at h
  · next heq =>
    obtain rfl := Option.some.inj h
    rw [heq] at he ⊢
    exact ⟨he.1.names,fun _ => ⟨rfl,he.1⟩⟩
  · next heq =>
    obtain rfl := Option.some.inj h
    exact ⟨normpath_names _,by simp [heq]⟩
  · simp at h

theorem names_render {path : List Name} (hp : ∀ name∈path,slash∉name) (hne : path≠[]) :
    names (render path)=[]::path := by
  have hc (path : List Name) (hp : ∀ name∈path,slash∉name) :
      names (path.flatMap (slash :: ·))=[]::path := by
    induction path with
    | nil => rfl
    | cons name path ih =>
      obtain ⟨hn,hp⟩ := List.forall_mem_cons.mp hp
      have ih := ih hp
      rw [List.flatMap_cons,List.cons_append,names,splitByte_cons_sep]
      obtain ⟨a,p,hr,ha⟩ := splitByte_append slash name (path.flatMap (slash :: ·)) hn
      rw [names,hr] at ih
      obtain ⟨rfl,rfl⟩ := List.cons.inj ih
      rw [ha,List.append_nil]
  cases path with
  | nil => exact absurd rfl hne
  | cons name path => exact hc (name::path) hp

theorem resolve_render (hp : ∀ name∈path,slash∉name) :
    fs.resolve (render path)=fs.resolveFrom maxLinks [] path := by
  have hs (rs : List Name) : fs.resolveFrom maxLinks [] ([]::rs) =
      fs.resolveFrom maxLinks [] rs := by
    rw [resolveFrom.eq_def,resolveFrom.eq_def fs maxLinks [] rs]
    simp [advance,lookup]
  cases path with
  | nil => exact (hs [[]]).trans (hs [])
  | cons name path =>
    rw [resolve,names_render hp (List.cons_ne_nil name path)]
    exact hs _

theorem Canonical.resolve (h : Canonical fs path) {q : List Name}
    (hq : fs.resolve (render path)=some q) : q=path := by
  rw [resolve_render fun name hn => (h.names name hn).2] at hq
  exact h.settled path List.prefix_rfl q hq

theorem not_doubled (h : ∀ name∈path,name≠[] ∧ slash∉name) : ¬ [slash,slash] <+: render path := by
  intro hs
  cases path with
  | nil => simpa [render] using hs.length_le
  | cons name path =>
    obtain ⟨hn,hsl⟩ := h name List.mem_cons_self
    cases name with
    | nil => exact absurd rfl hn
    | cons b name =>
      obtain ⟨-,hs⟩ := List.cons_prefix_cons.mp hs
      obtain ⟨rfl,-⟩ := List.cons_prefix_cons.mp hs
      exact hsl List.mem_cons_self

/-- A text that continues the text of a path after a slash, or ends there, is of a path below. -/
theorem prefix_of_render {r path : List Name} (hr : ∀ name∈r,name≠[] ∧ slash∉name)
    (hp : ∀ name∈path,name≠[] ∧ slash∉name)
    (h : render path=render r ∨ render r++[slash] <+: render path) : r <+: path := by
  by_cases hn : r=[]
  · exact hn ▸ List.nil_prefix
  have hnr := names_render (fun name hm => (hr name hm).2) hn
  have hl : ∃ l,names (render path)=[]::r++l := by
    rcases h with h | ⟨t,h⟩
    · exact ⟨[],by rw [h,hnr,List.append_nil]⟩
    · refine ⟨names t,?_⟩
      rw [← h,List.append_assoc,List.singleton_append,names,splitByte_append_cons,← names,hnr]
      rfl
  obtain ⟨l,hl⟩ := hl
  cases path with
  | nil =>
    obtain ⟨name,r,rfl⟩ := List.exists_cons_of_ne_nil hn
    have hna : [[],[]]=[]::name::r++l := hl
    exact absurd (List.cons.inj (List.cons.inj hna).2).1.symm (hr name List.mem_cons_self).1
  | cons o path =>
    rw [names_render (fun name hm => (hp name hm).2) (List.cons_ne_nil o path)] at hl
    exact ⟨l,(List.cons.inj hl).2.symm⟩

end Canonical

end FileSystem
end BlackBull.Posix
