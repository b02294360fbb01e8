/-
The built-in profiles. Eyecatchers stay unique per feature id, since the
markers of two features would collide otherwise.
-/
import TaggedSource.Catalogue

namespace TaggedSource.Builtin

/-- Lines as a text, each with its line feed. -/
def block (lines : List String) : Text := lines.flatMap fun line => text line ++ ['\n']

/-- A feature by its id and eyecatcher. -/
def feature (id eyecatcher : String) : Feature := ⟨text id, text eyecatcher⟩

/-- A rule by its two sides. -/
def rule (pattern replacement : String) : Rule := ⟨text pattern, text replacement⟩

/-- The features that both profiles strip, up to the sniffer. -/
def featuresBeforeSniffer : List Feature :=
  [feature "**" "@anXjKh@", feature "*******" "@7r7cgE@", feature "generic" "@KRNgBy@",
    feature "Logger" "@85Lbt3@", feature "Tracer" "@O8gSAh@", feature "PostReviewer" "@C58Dsg@",
    feature "PreSimulation" "@FZXMf2@"]

/-- The sniffer, around which one of the projects is built. -/
def sniffer : Feature := feature "Sniffer" "@iw9tXB@"

/-- The features that both profiles strip, past the sniffer. -/
def featuresAfterSniffer : List Feature :=
  [feature "APBMRCM" "@YjXXEH@", feature "FrzngCnf" "@fpi5v0@",
    feature "KalmanFilter" "@PTBBpC@", feature "ParticlesFilter" "@Ggihzf@",
    feature "RollerReader" "@TYv660@", feature "Crypto" "@a03nxf@",
    feature "CacheLocal" "@IqglzE@", feature "Router" "@ENgIzB@", feature "Grapher" "@4Fu5VH@",
    feature "jsNavigator" "@Lz5WOQ@", feature "jsGrapher" "@NgAmQD@"]

/-- The line patterns of both profiles. -/
def lines : List Text :=
  [text "/*Piranhito?@-#stmt-@GcDxPQ@*/", text "Logger.log", text "Logger.list",
    text "Logger.rename", text "Logger.retrieve", text "Tracer.trace"]

/-- The tokens that both profiles delete. -/
def tokens : List Text :=
  [text "/*Piranhito?@-**-S@anXjKh@*/", text "/*Piranhito?@-**-E@anXjKh@*/",
    text "/*Piranhito?@-ptfgiakPreSimulation-S@FZXMf2@*/",
    text "/*Piranhito?@-ptfgiakPreSimulation-E@FZXMf2@*/",
    text "/*Piranhito?@-ptfgiakCacheLocal-S@IqglzE@*/",
    text "/*Piranhito?@-ptfgiakCacheLocal-E@IqglzE@*/"]

/-- The tokens that both profiles replace. -/
def tokenPairs : List TokenPair := [⟨text "/*Piranhito?@-", text "/*?@-"⟩]

/-- The features that both profiles strip from copyright headers. -/
def copyrightFeatures : List Feature := [feature "123456" "@654321@"]

/-- The rights line of a header. -/
def rightsLine : List String := ["//  Copyright © 2020-2021 xxx yyy zzz. All rights reserved."]

/-- The endorsement clause of a header. -/
def endorsement : List String :=
  ["//  The name of xxx yyy zzz may not be used to endorse or promote",
    "//  products derived from this software without specific prior written permission."]

/-- The disclaimer of a header. -/
def disclaimer : List String :=
  ["//  THIS SOFTWARE IS PROVIDED BY THE COPYRIGHT HOLDERS AND CONTRIBUTORS \"AS IS\" AND",
    "//  ANY EXPRESS OR IMPLIED WARRANTIES, INCLUDING, BUT NOT LIMITED TO, THE IMPLIED",
    "//  WARRANTIES OF MERCHANTABILITY AND FITNESS FOR A PARTICULAR PURPOSE ARE DISCLAIMED.",
    "//  IN NO EVENT SHALL xxx yyy zzz BE LIABLE FOR ANY DIRECT, INDIRECT,",
    "//  INCIDENTAL, SPECIAL, EXEMPLARY, OR CONSEQUENTIAL DAMAGES OR INJURIES (INCLUDING,",
    "//  BUT NOT LIMITED TO, PROCUREMENT OF SUBSTITUTE GOODS OR SERVICES; LOSS OF USE, DATA,",
    "//  OR PROFITS; OR BUSINESS INTERRUPTION; ACCIDENTS INVOLVING DEATH OR INJURIES TO THE",
    "//  PHYSICAL AND MENTAL INTEGRITY OF A PERSON; OR DATA PRIVACY AND PROTECTION ISSUES)",
    "//  HOWEVER CAUSED AND ON ANY THEORY OF LIABILITY, WHETHER IN CONTRACT, STRICT LIABILITY,",
    "//  OR TORT (INCLUDING NEGLIGENCE OR OTHERWISE) ARISING IN ANY WAY OUT OF THE USE OF THIS",
    "//  SOFTWARE, EVEN IF ADVISED OF THE POSSIBILITY OF SUCH DAMAGE."]

/-- The permission notice that takes the disclaimer's place. -/
def permission : List String :=
  ["/*******************************************************************************",
    "*",
    "* The MIT License (MIT)",
    "*",
    "* Copyright (c) 2020, 2021, 2022  xxx yyy zzz",
    "*",
    "* Permission is hereby granted, free of charge, to any person obtaining a copy",
    "* of this software and associated documentation files (the \"Software\"), to deal",
    "* in the Software without restriction, including without limitation the rights",
    "* to use, copy, modify, merge, publish, distribute, sublicense, and/or sell",
    "* copies of the Software, and to permit persons to whom the Software is",
    "* furnished to do so, subject to the following conditions:",
    "*",
    "* The above copyright notice and this permission notice shall be included in",
    "* all copies or substantial portions of the Software.",
    "*",
    "* THE SOFTWARE IS PROVIDED \"AS IS\", WITHOUT WARRANTY OF ANY KIND, EXPRESS OR",
    "* IMPLIED, INCLUDING BUT NOT LIMITED TO THE WARRANTIES OF MERCHANTABILITY,",
    "* FITNESS FOR A PARTICULAR PURPOSE AND NONINFRINGEMENT. IN NO EVENT SHALL THE",
    "* AUTHORS OR COPYRIGHT HOLDERS BE LIABLE FOR ANY CLAIM, DAMAGES OR OTHER",
    "* LIABILITY, WHETHER IN AN ACTION OF CONTRACT, TORT OR OTHERWISE, ARISING FROM,",
    "* OUT OF OR IN CONNECTION WITH THE SOFTWARE OR THE USE OR OTHER DEALINGS IN",
    "* THE SOFTWARE.",
    "*******************************************************************************/"]

/-- The profile of the orientation project. -/
def orientamento : Profile where
  id := text "Orientamento"
  removableFeatures := featuresBeforeSniffer ++ [sniffer] ++ featuresAfterSniffer
  replaceableStrings :=
    [rule "public func contains(_ element: Element) -> Bool"
        "public func include(_ element: Element) -> Bool",
      rule "guard contains(element)" "guard include(element)"]
  removableLines := lines
  removableTokens := tokens
  replaceableTokens := tokenPairs
  copyrightFeatures := copyrightFeatures
  copyrightStrings :=
    [rule "Created by xxx yyy" "Created by xxx yyy zzz",
      ⟨block rightsLine, []⟩,
      ⟨block (endorsement ++ disclaimer), block (endorsement ++ permission)⟩]

/-- The profile of the sniffer project, which keeps its sniffer. -/
def snifferUtil : Profile where
  id := text "SnifferUtil"
  removableFeatures := featuresBeforeSniffer ++ featuresAfterSniffer
  replaceableStrings := [rule "qwerty" "qwertyUtil", rule "salma" "salmaUtil"]
  removableLines := lines
  removableTokens := tokens
  replaceableTokens := tokenPairs
  copyrightFeatures := copyrightFeatures
  copyrightStrings :=
    [rule "Created by xxx zzz" "Created by xxx yyy zzz",
      rule "Created by x. zzz" "Created by xxx yyy zzz",
      rule "Created by x.y. zzz" "Created by xxx yyy zzz",
      rule "Created by xxx y. zzz" "Created by xxx yyy zzz",
      rule "Created by xxx y zzz" "Created by xxx yyy zzz",
      ⟨block rightsLine, block (rightsLine ++ endorsement ++ disclaimer)⟩]

end TaggedSource.Builtin

namespace TaggedSource.Catalogue

/-- The catalogue of the built-in profiles. -/
def builtin {σ : Type} : Action σ Catalogue :=
  ofProfiles [Builtin.orientamento, Builtin.snifferUtil]

end TaggedSource.Catalogue
