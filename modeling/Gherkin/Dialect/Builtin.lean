import Gherkin.Keyword
import Gherkin.LanguageTag

/-!
# Built-in keyword tables

The keywords of nine languages.  A tag that has no table of its own falls back on the table of its
language: `pt-BR` reads like `pt`.
-/

namespace Gherkin.Builtin

/-- The keywords of English. -/
def english : List (KeywordKind × List String) :=
  [(.feature, ["Feature", "Business Need", "Ability"]),
   (.background, ["Background"]),
   (.scenario, ["Example", "Scenario"]),
   (.scenarioOutline, ["Scenario Outline", "Scenario Template"]),
   (.examples, ["Examples", "Scenarios"]),
   (.givenStep, ["* ", "Given "]),
   (.whenStep, ["* ", "When "]),
   (.thenStep, ["* ", "Then "]),
   (.andStep, ["* ", "And "]),
   (.butStep, ["* ", "But "])]

/-- The keywords of French. -/
def french : List (KeywordKind × List String) :=
  [(.feature, ["Fonctionnalité"]),
   (.background, ["Contexte"]),
   (.scenario, ["Exemple", "Scénario"]),
   (.scenarioOutline, ["Plan du scénario", "Plan du Scénario"]),
   (.examples, ["Exemples"]),
   (.givenStep,
    ["* ", "Soit ", "Sachant que ", "Sachant qu'", "Sachant ", "Etant donné que ",
     "Etant donné qu'", "Etant donné ", "Etant donnée ", "Etant donnés ", "Etant données ",
     "Étant donné que ", "Étant donné qu'", "Étant donné ", "Étant donnée ", "Étant donnés ",
     "Étant données "]),
   (.whenStep, ["* ", "Quand ", "Lorsque ", "Lorsqu'"]),
   (.thenStep, ["* ", "Alors ", "Donc "]),
   (.andStep, ["* ", "Et que ", "Et qu'", "Et "]),
   (.butStep, ["* ", "Mais que ", "Mais qu'", "Mais "])]

/-- The keywords of Spanish. -/
def spanish : List (KeywordKind × List String) :=
  [(.feature, ["Característica", "Necesidad del negocio", "Requisito"]),
   (.background, ["Antecedentes"]),
   (.scenario, ["Ejemplo", "Escenario"]),
   (.scenarioOutline, ["Esquema del escenario"]),
   (.examples, ["Ejemplos"]),
   (.givenStep, ["* ", "Dado ", "Dada ", "Dados ", "Dadas "]),
   (.whenStep, ["* ", "Cuando "]),
   (.thenStep, ["* ", "Entonces "]),
   (.andStep, ["* ", "Y ", "E "]),
   (.butStep, ["* ", "Pero "])]

/-- The keywords of German. -/
def german : List (KeywordKind × List String) :=
  [(.feature, ["Funktionalität", "Funktion"]),
   (.background, ["Grundlage", "Hintergrund", "Voraussetzungen", "Vorbedingungen"]),
   (.scenario, ["Beispiel", "Szenario"]),
   (.scenarioOutline, ["Szenariogrundriss", "Szenarien"]),
   (.examples, ["Beispiele"]),
   (.givenStep, ["* ", "Angenommen ", "Gegeben sei ", "Gegeben seien "]),
   (.whenStep, ["* ", "Wenn "]),
   (.thenStep, ["* ", "Dann "]),
   (.andStep, ["* ", "Und "]),
   (.butStep, ["* ", "Aber "])]

/-- The keywords of Italian. -/
def italian : List (KeywordKind × List String) :=
  [(.feature, ["Funzionalità", "Esigenza di Business", "Abilità"]),
   (.background, ["Contesto"]),
   (.scenario, ["Esempio", "Scenario"]),
   (.scenarioOutline, ["Schema dello scenario"]),
   (.examples, ["Esempi"]),
   (.givenStep, ["* ", "Dato ", "Data ", "Dati ", "Date "]),
   (.whenStep, ["* ", "Quando "]),
   (.thenStep, ["* ", "Allora "]),
   (.andStep, ["* ", "E "]),
   (.butStep, ["* ", "Ma "])]

/-- The keywords of Portuguese. -/
def portuguese : List (KeywordKind × List String) :=
  [(.feature, ["Funcionalidade", "Característica", "Caracteristica"]),
   (.background, ["Contexto", "Cenário de Fundo", "Cenario de Fundo", "Fundo"]),
   (.scenario, ["Exemplo", "Cenário", "Cenario"]),
   (.scenarioOutline,
    ["Esquema do Cenário", "Esquema do Cenario", "Delineação do Cenário",
     "Delineacao do Cenario"]),
   (.examples, ["Exemplos", "Cenários", "Cenarios"]),
   (.givenStep, ["* ", "Dado ", "Dada ", "Dados ", "Dadas "]),
   (.whenStep, ["* ", "Quando "]),
   (.thenStep, ["* ", "Então ", "Entao "]),
   (.andStep, ["* ", "E "]),
   (.butStep, ["* ", "Mas "])]

/-- The keywords of Dutch. -/
def dutch : List (KeywordKind × List String) :=
  [(.feature, ["Functionaliteit"]),
   (.background, ["Achtergrond"]),
   (.scenario, ["Voorbeeld", "Scenario"]),
   (.scenarioOutline, ["Abstract Scenario"]),
   (.examples, ["Voorbeelden"]),
   (.givenStep, ["* ", "Gegeven ", "Stel "]),
   (.whenStep, ["* ", "Als ", "Wanneer "]),
   (.thenStep, ["* ", "Dan "]),
   (.andStep, ["* ", "En "]),
   (.butStep, ["* ", "Maar "])]

/-- The keywords of Russian. -/
def russian : List (KeywordKind × List String) :=
  [(.feature, ["Функция", "Функциональность", "Функционал", "Свойство", "Фича"]),
   (.background, ["Предыстория", "Контекст"]),
   (.scenario, ["Пример", "Сценарий"]),
   (.scenarioOutline, ["Структура сценария", "Шаблон сценария"]),
   (.examples, ["Примеры"]),
   (.givenStep, ["* ", "Допустим ", "Дано ", "Пусть "]),
   (.whenStep, ["* ", "Когда ", "Если "]),
   (.thenStep, ["* ", "То ", "Затем ", "Тогда "]),
   (.andStep, ["* ", "И ", "К тому же ", "Также "]),
   (.butStep, ["* ", "Но ", "А ", "Иначе "])]

/-- The keywords of Japanese. -/
def japanese : List (KeywordKind × List String) :=
  [(.feature, ["フィーチャ", "機能"]),
   (.background, ["背景"]),
   (.scenario, ["シナリオ"]),
   (.scenarioOutline, ["シナリオアウトライン", "シナリオテンプレート", "テンプレ", "シナリオテンプレ"]),
   (.examples, ["例", "サンプル"]),
   (.givenStep, ["* ", "前提"]),
   (.whenStep, ["* ", "もし"]),
   (.thenStep, ["* ", "ならば"]),
   (.andStep, ["* ", "且つ", "かつ"]),
   (.butStep, ["* ", "然し", "しかし", "但し", "ただし"])]

/-- The languages that have a table, with their tables. -/
def tables : List (String × List (KeywordKind × List String)) :=
  [("en", english),
   ("fr", french),
   ("es", spanish),
   ("de", german),
   ("it", italian),
   ("pt", portuguese),
   ("nl", dutch),
   ("ru", russian),
   ("ja", japanese)]

/-- The tags of the languages that have a table. -/
def languages : List String :=
  tables.map Prod.fst

/-- The table for a tag, or else the table for its language without any subtags. -/
def table? (tag : String) : Option (List (KeywordKind × List String)) :=
  (tables.lookup tag).or (tables.lookup (LanguageTag.primary tag))

/-- The built-in tables as a source. -/
def keywords : KeywordSource :=
  fun tag => (table? tag).map KeywordMap.ofEntries

end Gherkin.Builtin
