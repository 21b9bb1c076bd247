import BlackBull.StaticConfinement

/-!
# The cache of static files

An entry is kept under the path of the file it was read from, with the type that was guessed from
the path that was asked for. So the cache shows where a sibling and the file it stands for are of
different types.
-/

namespace BlackBull.Static

open ByteString Posix HeadParser

variable (lib : Library) (fs : FileSystem)

/-- The entries are what would be loaded for their own paths. -/
structure Kept (s : StaticFiles) : Prop extends Memo fs s where
  entries : ∀ item∈s.cache,fresh lib fs item.1 item.1=some item.2.loaded

/-- The file that is served has the type of the file that is asked for. -/
def Typed (config : Config) (request : Request) : Prop :=
  ∀ path,config.locate lib fs (config.rest request)=.found path →
    mimeOf lib (chosen lib fs request.conn path).1=mimeOf lib path

def outcomes (s : StaticFiles) : List Request → List Outcome
  | [] => []
  | request::requests =>
    (s.call lib fs request).2::outcomes (s.call lib fs request).1 requests

variable {lib fs} {s : StaticFiles} {path sp : Bytes}

theorem serve_kept {cn : Conn} (h : Kept lib fs s)
    (hm : mimeOf lib (chosen lib fs cn path).1=mimeOf lib path) (now : ℤ) :
    ∃ b c,s.serve lib fs now cn path=({s with siblingCache:=b,cache:=c},served lib fs s.config
      cn path (fresh lib fs path (chosen lib fs cn path).1)) ∧
      Kept lib fs {s with siblingCache:=b,cache:=c} := by
  generalize hsp : (chosen lib fs cn path).1=sp at hm ⊢
  have hf : fresh lib fs sp sp=fresh lib fs path sp := by rw [fresh,fresh,hm]
  obtain ⟨b,c,r,hse,hb,hc,hn,hp⟩ := serve_keeps (P := fun sp f => fresh lib fs sp sp=some f)
    h.siblings h.entries (fun _ hfi => hsp ▸ hf.trans (hsp ▸ hfi)) now
  rw [hsp] at hn hp
  have hr : r=fresh lib fs path sp := by
    cases r with
    | none => simp [fresh,hn rfl]
    | some f => exact (hp f rfl).symm.trans hf
  refine ⟨b,c,hr ▸ hse,⟨hb,fun i hi => ?_⟩,hc⟩
  obtain ⟨⟨m,content⟩,hre,he⟩ := Option.map_eq_some_iff.mp (hc i hi)
  have hbo : (if content.length≤cacheMaxBytesPerFile then some content else none) =
    some i.2.body := congrArg Loaded.body he
  split_ifs at hbo
  exact ⟨m,Option.some.inj hbo ▸ hre⟩

/-- The states of two runs that differ by the cache. -/
structure Twins (lib : Library) (fs : FileSystem) (s t : StaticFiles) : Prop where
  left : Kept lib fs s
  right : Kept lib fs t
  same : ∃ e b c,t={s with config:={s.config with cacheEnabled:=e},siblingCache:=b,cache:=c}

theorem Twins.call {t : StaticFiles} {q : Request} (h : Twins lib fs s t)
    (ht : Typed lib fs s.config q) : (s.call lib fs q).2=(t.call lib fs q).2 ∧
      Twins lib fs (s.call lib fs q).1 (t.call lib fs q).1 ∧
      (s.call lib fs q).1.config=s.config := by
  obtain ⟨hl,hr,e,b,c,rfl⟩ := h
  have he (o : Option Bool) : Twins lib fs {s with enabled:=o} {s with
      config:={s.config with cacheEnabled:=e},enabled:=o,siblingCache:=b,cache:=c} :=
    ⟨⟨⟨hl.siblings,hl.bodies⟩,hl.entries⟩,⟨⟨hr.siblings,hr.bodies⟩,hr.entries⟩,e,b,c,rfl⟩
  unfold StaticFiles.call
  dsimp only
  split_ifs
  · exact ⟨rfl,⟨hl,hr,e,b,c,rfl⟩,rfl⟩
  · exact ⟨rfl,he _,rfl⟩
  · have hlo : Config.locate lib fs {s.config with cacheEnabled:=e} (s.config.rest q) =
        s.config.locate lib fs (s.config.rest q) := rfl
    rw [Config.rest] at hlo
    rw [hlo]
    cases hf : s.config.locate lib fs (q.conn.path.drop s.config.urlPrefix.length) with
    | found path =>
      obtain ⟨hls,hrs,-⟩ := he (some (s.enabled.getD (!q.production)))
      obtain ⟨b,c,hs,hk⟩ := serve_kept hls (ht path hf) q.now
      obtain ⟨b',c',hs',hk'⟩ := serve_kept hrs (ht path hf) q.now
      dsimp only at hs hs' ⊢
      rw [hs,hs']
      exact ⟨rfl,⟨hk,hk',e,b',c',rfl⟩,rfl⟩
    | _ => exact ⟨rfl,he _,rfl⟩
  · exact ⟨rfl,he _,rfl⟩

theorem outcomes_twins {t : StaticFiles} (h : Twins lib fs s t) {r : List Request}
    (ht : ∀ req∈r,Typed lib fs s.config req) : outcomes lib fs s r=outcomes lib fs t r := by
  induction r generalizing s t with
  | nil => rfl
  | cons q r ih =>
    obtain ⟨hq,hts⟩ := List.forall_mem_cons.mp ht
    obtain ⟨ho,htw,hc⟩ := h.call hq
    exact congrArg₂ List.cons ho (ih htw (hc ▸ hts))

/-- While the files stand still, a run with the cache answers as one without, if every file that
is served has the type of the one that is asked for. -/
theorem static_cache_transparent {lib : Library} {fs : FileSystem} {config : Config}
    {requests : List Request} (h : ∀ request∈requests,Typed lib fs config request) :
    outcomes lib fs {config:={config with cacheEnabled:=true}} requests =
      outcomes lib fs {config:={config with cacheEnabled:=false}} requests :=
  have hk (c : Config) : Kept lib fs {config:=c} := ⟨⟨by simp,by simp⟩,by simp⟩
  outcomes_twins ⟨hk _,hk _,false,[],[],rfl⟩ h

theorem static_cache_transparent_links :
    outcomes plainLibrary leakyRoot {config:={leakyConfig with cacheEnabled:=true}}
        [.get (ascii "/static/a") [],.get (ascii "/static/a") []] =
      outcomes plainLibrary leakyRoot {config:={leakyConfig with cacheEnabled:=false}}
        [.get (ascii "/static/a") [],.get (ascii "/static/a") []] :=
  static_cache_transparent fun _ _ _ _ => rfl

/-- A script and its compressed form, whose own type is not known. -/
def scripts : FileSystem where
  entries :=
    [([ascii "srv"],.directory),([ascii "srv",ascii "pub"],.directory),
      ([ascii "srv",ascii "pub",ascii "a.js"],.file 0 (ascii "x")),
      ([ascii "srv",ascii "pub",ascii "a.js.zst"],.file 0 (ascii "y"))]

def scriptLibrary : Library where
  __ := plainLibrary
  guessType path := if path=ascii "/srv/pub/a.js" then some (ascii "text/javascript") else none

/-- The file that was served as a script before is a script when it is asked for itself. -/
theorem cached_type_differs :
    let requests := [.get (ascii "/static/a.js") [(ascii "accept-encoding",ascii "zstd")],
      .get (ascii "/static/a.js.zst") []]
    outcomes scriptLibrary scripts {config:={leakyConfig with cacheEnabled:=true}} requests≠
      outcomes scriptLibrary scripts {config:=leakyConfig} requests := by
  decide +kernel

end BlackBull.Static
