import Treeshake.Build.Settings
import Treeshake.Json.Reader
import Treeshake.Text.Search

namespace Treeshake.Sentinel

structure Table where
  entries : List (String × String)
deriving DecidableEq, Repr

namespace Table

def version : String := "__QUASAR_VERSION__"
def ssr : String := "__QUASAR_SSR__"
def ssrServer : String := "__QUASAR_SSR_SERVER__"
def ssrClient : String := "__QUASAR_SSR_CLIENT__"
def ssrPwa : String := "__QUASAR_SSR_PWA__"

def values (release : String) (settings : Settings) (target : Target) : List (String × Json) :=
  let server := target == .server
  [(version, .string release),
   (ssr, .bool (settings.ssr && server)),
   (ssrServer, .bool (settings.ssr && server)),
   (ssrClient, .bool (settings.ssr && !server)),
   (ssrPwa, .bool (settings.ssr && settings.pwa))]

def ofBuild (release : String) (settings : Settings) (target : Target) : Table :=
  ⟨(values release settings target).map fun (name, value) => (name, value.render)⟩

def get? (table : Table) (name : String) : Option String := table.entries.lookup name

-- Whether the text of a source holds any of the names, wherever it stands.
def mentionedIn (table : Table) (source : String) : Bool :=
  table.entries.any fun (name, _) => Text.contains name.toList source.toList

-- The table as one JSON object. A text that is no JSON would count as null.
def describe (table : Table) : String :=
  (Json.object (table.entries.map fun (name, literal) =>
    (name, (Json.parse literal).toOption.getD .null))).render

end Table

end Treeshake.Sentinel
